import ConvergentStore.Number.Binary64

/-!
# Messages

What travels on a broadcast channel, and the filters by which subscribers
choose from it.
-/

namespace ConvergentStore

/-- Lists of words, the first of which names a tag and the others its values. -/
abbrev Tags := List (List String)

/-- A message handed to a channel. -/
structure Outbound where
  kind : Binary64
  content : String
  tags : Tags
  deriving DecidableEq

/-- A message delivered by a channel, with its identifier and its sender. -/
structure Message where
  id : String
  kind : Binary64
  sender : String
  content : String
  tags : Tags
  deriving DecidableEq

/-- The message that is delivered for one that was handed over. -/
def Outbound.toMessage (outbound : Outbound) (id sender : String) : Message :=
  ⟨id, outbound.kind, sender, outbound.content, outbound.tags⟩

/-- Whether tags hold a hashtag. -/
def Tags.hasHashtag (tags : Tags) (hashtag : String) : Bool :=
  tags.any fun
    | "t" :: value :: _ => value == hashtag
    | _ => false

/-- A choice among messages: of some kinds, and with one of some hashtags if there are any. -/
structure Filter where
  kinds : List Binary64
  hashtags : List String
  deriving DecidableEq

/-- Whether a filter lets a message through. -/
def Filter.admits (filter : Filter) (message : Message) : Bool :=
  filter.kinds.any (·.sameValue message.kind) &&
    (filter.hashtags.isEmpty || filter.hashtags.any message.tags.hasHashtag)

end ConvergentStore
