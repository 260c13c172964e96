import ConvergentStore.Proofs.Replica.Feed

/-!
# Overflow

A total refuses an amount that it has no room for, and how much room it has
depends on what came before. So the order in which amounts arrive decides which
of them are left out: every order divides them into some that the total takes
and others that then have no room, and every such division is what some order
comes to (`attainable_iff`). Replicas that hear the same increments have equal
counters in every order exactly when, under each key, all divisions take the
same sum (`counters_converge_iff`). They do while the amounts stay within the
safe range together, but not beyond it (`counters_diverge`).
-/

namespace ConvergentStore

open Binary64 (largestSafe)

/-! ## Amounts -/

namespace Counter

/-- Amounts divided into those that a total takes and others that then have no room. -/
structure Division (amounts taken refused : List Nat) : Prop where
  all : (taken ++ refused).Perm amounts
  room : taken.sum ≤ largestSafe
  full : ∀ amount ∈ refused, largestSafe < taken.sum + amount

/-- The totals that amounts can come to. -/
def Attainable (amounts : List Nat) (total : Nat) : Prop :=
  ∃ taken refused, Division amounts taken refused ∧ total = taken.sum

section

variable {amounts taken refused : List Nat} {last : Nat}

theorem Division.take
    (division : Division amounts taken refused)
    (room : taken.sum + last ≤ largestSafe) :
    Division (amounts ++ [last]) (last :: taken) refused := by
  have sum : (last :: taken).sum = taken.sum + last := by
    rw [List.sum_cons, Nat.add_comm]
  refine ⟨?_, sum ▸ room, ?_⟩
  · exact (division.all.cons last).trans (List.perm_append_singleton last amounts).symm
  · intro amount among
    have full := division.full amount among
    rw [sum]
    omega

theorem Division.refuse
    (division : Division amounts taken refused)
    (full : largestSafe < taken.sum + last) :
    Division (amounts ++ [last]) taken (last :: refused) := by
  refine ⟨?_, division.room, List.forall_mem_cons.mpr ⟨full, division.full⟩⟩
  calc
    (taken ++ last :: refused).Perm (last :: (taken ++ refused)) := List.perm_middle
    List.Perm _ (last :: amounts) := division.all.cons last
    List.Perm _ (amounts ++ [last]) := (List.perm_append_singleton last amounts).symm

end

/-- Amounts in turn come to a total that is attainable. -/
theorem attainable_fill (amounts : List Nat) : Attainable amounts (fill amounts) := by
  induction amounts using List.reverseRecOn with
  | nil => exact ⟨[], [], ⟨.refl _, Nat.zero_le _, nofun⟩, rfl⟩
  | append_singleton earlier last ih =>
      rcases ih with ⟨taken, refused, division, total⟩
      rw [fill_concat, total]
      split
      · next room => exact ⟨_, _, division.take room, by rw [List.sum_cons, Nat.add_comm]⟩
      · next full => exact ⟨_, _, division.refuse (not_le.mp full), rfl⟩

/-- A total takes what a division takes, if that comes first. -/
theorem fill_append
    {taken refused : List Nat}
    (room : taken.sum ≤ largestSafe)
    (full : ∀ amount ∈ refused, largestSafe < taken.sum + amount) :
    fill (taken ++ refused) = taken.sum := by
  induction refused using List.reverseRecOn with
  | nil => rw [List.append_nil, fill_eq_sum room]
  | append_singleton earlier last ih =>
      have before := ih fun amount among => full amount (List.mem_append_left _ among)
      have noRoom := full last (List.mem_append_right _ (List.mem_singleton_self last))
      rw [← List.append_assoc, fill_concat, before, if_neg (not_le.mpr noRoom)]

/-- The attainable totals are what amounts come to in their various orders. -/
theorem attainable_iff {amounts : List Nat} {total : Nat} :
    Attainable amounts total ↔ ∃ order, order.Perm amounts ∧ fill order = total := by
  constructor
  · rintro ⟨taken, refused, division, rfl⟩
    exact ⟨taken ++ refused, division.all, fill_append division.room division.full⟩
  · rintro ⟨order, reordered, rfl⟩
    rcases attainable_fill order with ⟨taken, refused, division, total⟩
    exact ⟨taken, refused, ⟨division.all.trans reordered, division.room, division.full⟩, total⟩

/-- Amounts that stay within the safe range together can only come to their sum. -/
theorem Attainable.eq_sum
    {amounts : List Nat}
    {total : Nat}
    (attainable : Attainable amounts total)
    (room : amounts.sum ≤ largestSafe) :
    total = amounts.sum := by
  rcases attainable_iff.mp attainable with ⟨order, reordered, rfl⟩
  rw [← reordered.sum_nat] at room ⊢
  exact fill_eq_sum room

theorem Attainable.le
    {amounts : List Nat}
    {total : Nat}
    (attainable : Attainable amounts total) :
    total ≤ largestSafe := by
  rcases attainable with ⟨taken, refused, division, rfl⟩
  exact division.room

/-- What a counter holds under a key when the amounts under it have come to a total. -/
def held (amounts : List Nat) (total : Nat) : Option Binary64 :=
  if amounts = [] then none else some (.ofNat total)

theorem filled_eq_held_of_perm
    {amounts order : List Nat}
    (reordered : order.Perm amounts) :
    filled order = held amounts (fill order) := by
  rw [filled, held]
  simp only [← List.length_eq_zero_iff, reordered.length_eq]

/-- A counter tells attainable totals apart. -/
theorem Attainable.eq_of_held_eq
    {amounts : List Nat}
    {left right : Nat}
    (leftAttainable : Attainable amounts left)
    (rightAttainable : Attainable amounts right)
    (same : held amounts left = held amounts right) :
    left = right := by
  by_cases nothing : amounts = []
  · subst nothing
    have room : [].sum ≤ largestSafe := Nat.zero_le _
    rw [leftAttainable.eq_sum room, rightAttainable.eq_sum room]
  · rw [held, held, if_neg nothing, if_neg nothing, Option.some.injEq] at same
    have whole := congrArg Binary64.toNat same
    rwa [Binary64.toNat_ofNat (leftAttainable.le.trans Binary64.largestSafe_le),
      Binary64.toNat_ofNat (rightAttainable.le.trans Binary64.largestSafe_le)] at whole

end Counter

/-! ## Messages -/

/-- What is selected from elements comes in any order, if the elements come in a suitable one. -/
theorem exists_perm_filterMap_eq
    {α β : Type}
    (select : α → Option β)
    {elements : List α}
    {order : List β}
    (reordered : order.Perm (elements.filterMap select)) :
    ∃ suitable : List α, suitable.Perm elements ∧ suitable.filterMap select = order := by
  induction order generalizing elements with
  | nil => exact ⟨elements, .refl _, reordered.nil_eq.symm⟩
  | cons first rest ih =>
      rcases List.mem_filterMap.mp (reordered.subset List.mem_cons_self) with
        ⟨element, among, selected⟩
      rcases List.append_of_mem among with ⟨before, after, rfl⟩
      have fetched : (before ++ element :: after).Perm (element :: (before ++ after)) :=
        List.perm_middle
      have others := reordered.trans (fetched.filterMap select)
      rw [List.filterMap_cons_some selected] at others
      rcases ih others.cons_inv with ⟨suitable, same, ordered⟩
      refine ⟨element :: suitable, (same.cons element).trans fetched.symm, ?_⟩
      rw [List.filterMap_cons_some selected, ordered]

namespace Profile

theorem amounts_carried
    (profile : Profile)
    (key : String)
    (messages : List Message) :
    Counter.amounts key (profile.carried messages) =
      messages.filterMap fun message => (profile.decoded? message).bind (Counter.amount? key) :=
  List.filterMap_filterMap

section

variable {profile : Profile} {feed order : List Message}

theorem amounts_perm
    (reordered : order.Perm feed)
    (key : String) :
    (Counter.amounts key (profile.carried order)).Perm
      (Counter.amounts key (profile.carried feed)) :=
  (reordered.filterMap profile.decoded?).filterMap (Counter.amount? key)

/-- What the amounts in a feed come to in some order of the feed, they can come to. -/
theorem attainable_of_perm
    (reordered : order.Perm feed)
    (key : String) :
    Counter.Attainable (Counter.amounts key (profile.carried feed))
      (Counter.fill (Counter.amounts key (profile.carried order))) :=
  Counter.attainable_iff.mpr ⟨_, amounts_perm reordered key, rfl⟩

/-- What the amounts in a feed can come to, they come to in some order of the feed. -/
theorem exists_perm_fill_eq
    {key : String}
    {total : Nat}
    (attainable : Counter.Attainable (Counter.amounts key (profile.carried feed)) total) :
    ∃ order : List Message, order.Perm feed ∧
      Counter.fill (Counter.amounts key (profile.carried order)) = total := by
  rcases Counter.attainable_iff.mp attainable with ⟨amounts, reordered, rfl⟩
  rw [amounts_carried] at reordered
  rcases exists_perm_filterMap_eq _ reordered with ⟨order, same, selected⟩
  exact ⟨order, same, by rw [amounts_carried, selected]⟩

/-- A replica holds under each key what the amounts in a feed come to in the order it hears. -/
theorem read?_absorbAll_of_perm
    (sound : ∀ message ∈ feed, profile.breaks message = false)
    (reordered : order.Perm feed)
    (key : String) :
    (profile.absorbAll order .empty).replica.counters.read? key =
      Counter.held (Counter.amounts key (profile.carried feed))
        (Counter.fill (Counter.amounts key (profile.carried order))) := by
  have heard : ∀ message ∈ order, profile.breaks message = false :=
    fun message among => sound message (reordered.subset among)
  rw [absorbAll_of_not_breaks heard, receivedAll_eq, Replica.replay_eq,
    ← Counter.filled_eq_held_of_perm (amounts_perm reordered key)]
  exact Counter.read?_replay_filled _ _

/--
Replicas have equal counters after every two orders of a feed exactly when no
key has two totals that its amounts can come to.
-/
theorem counters_eq_iff
    (sound : ∀ message ∈ feed, profile.breaks message = false)
    (identity : Identity) :
    (∀ left right : List Message, left.Perm feed → right.Perm feed →
      (profile.absorbAll left .empty).replica.counters =
        ({ profile with identity }.absorbAll right .empty).replica.counters) ↔
      ∀ key left right,
        Counter.Attainable (Counter.amounts key (profile.carried feed)) left →
          Counter.Attainable (Counter.amounts key (profile.carried feed)) right →
            left = right := by
  -- What becomes of a message does not depend on the identity.
  have others : ∀ {order : List Message} key, order.Perm feed →
      ({ profile with identity }.absorbAll order .empty).replica.counters.read? key =
        Counter.held (Counter.amounts key (profile.carried feed))
          (Counter.fill (Counter.amounts key (profile.carried order))) :=
    fun key same => @read?_absorbAll_of_perm { profile with identity } feed _ sound same key
  constructor
  · intro agree key left right leftAttainable rightAttainable
    rcases exists_perm_fill_eq leftAttainable with ⟨leftOrder, leftSame, rfl⟩
    rcases exists_perm_fill_eq rightAttainable with ⟨rightOrder, rightSame, rfl⟩
    apply leftAttainable.eq_of_held_eq rightAttainable
    rw [← read?_absorbAll_of_perm sound leftSame key, ← others key rightSame,
      agree leftOrder rightOrder leftSame rightSame]
  · intro single left right leftSame rightSame
    refine congrArg Counter.mk (Table.ext_get? fun key => ?_)
    have same := single key _ _ (attainable_of_perm leftSame key)
      (attainable_of_perm rightSame key)
    have kept := read?_absorbAll_of_perm sound leftSame key
    rw [same, ← others key rightSame] at kept
    exact kept

end

/--
Replicas that hear the same increments hold, under each key with amounts, a
total that these can come to, and each such total is what they hold after some
order. They have equal counters after every order exactly when no key has two
such totals. No key has two while the amounts stay within the safe range.
-/
theorem counters_converge_iff
    (profile : Profile)
    (identity : Identity)
    {feed : List Message}
    (increments : ∀ message ∈ feed, ∃ key amount,
      profile.decoded? message = some (.counterIncrement key amount)) :
    let heard (profile : Profile) (order : List Message) :=
      (profile.hear .attentive order .empty).replica.counters
    let amounts (key : String) := Counter.amounts key (profile.carried feed)
    let converge := ∀ left right, left.Perm feed → right.Perm feed →
      heard profile left = heard { profile with identity } right
    (∀ order key, order.Perm feed → ∃ total,
      Counter.Attainable (amounts key) total ∧
        (heard profile order).read? key = Counter.held (amounts key) total) ∧
    (∀ key total, Counter.Attainable (amounts key) total → ∃ order,
      order.Perm feed ∧ (heard profile order).read? key = Counter.held (amounts key) total) ∧
    (converge ↔ ∀ key left right,
      Counter.Attainable (amounts key) left → Counter.Attainable (amounts key) right →
        left = right) ∧
    ((∀ key, (amounts key).sum ≤ largestSafe) → converge) := by
  intro heard amounts converge
  have sound : ∀ message ∈ feed, profile.breaks message = false := by
    intro message among
    rcases increments message among with ⟨_, _, carried⟩
    exact not_breaks_of_decoded? carried
  refine ⟨?_, ?_, counters_eq_iff sound identity, ?_⟩
  · intro order key same
    exact ⟨_, attainable_of_perm same key, read?_absorbAll_of_perm sound same key⟩
  · intro key total attainable
    rcases exists_perm_fill_eq attainable with ⟨order, same, rfl⟩
    exact ⟨order, same, read?_absorbAll_of_perm sound same key⟩
  · intro room
    apply (counters_eq_iff sound identity).mpr
    intro key left right leftAttainable rightAttainable
    rw [leftAttainable.eq_sum (room key), rightAttainable.eq_sum (room key)]

/-- Two increments of which one is refused, but by the same amount in both orders. -/
theorem counters_converge_iff_refused :
    let profile : Profile := ⟨.standard, .plain, .unavailable⟩
    let first : Message :=
      ⟨"f0", 1, "peer",
        "\x7b\"GCounter\":\x7b\"key\":\"c\",\"increment\":9007199254740991\x7d\x7d",
        [["t", "nostr-crdt"]]⟩
    let second : Message := { first with id := "f1" }
    (profile.hear .attentive [first, second] .empty).replica.counters =
        ({ profile with identity := .owner "me" }.hear .attentive [second, first]
          .empty).replica.counters ∧
      (profile.hear .attentive [first, second] .empty).replica.counters.read? "c" =
        some (.ofNat largestSafe) := by
  intro profile first second
  have carriesFirst : profile.decoded? first =
      some (.counterIncrement "c" (.ofNat largestSafe)) := by decide +kernel
  have carriesSecond : profile.decoded? second =
      some (.counterIncrement "c" (.ofNat largestSafe)) := carriesFirst
  have increments : ∀ message ∈ [first, second], ∃ key amount,
      profile.decoded? message = some (.counterIncrement key amount) :=
    List.forall_mem_cons.mpr
      ⟨⟨_, _, carriesFirst⟩, List.forall_mem_singleton.mpr ⟨_, _, carriesSecond⟩⟩
  have refused : ∀ total, Counter.Attainable (List.replicate 2 largestSafe) total →
      total = largestSafe := by
    intro total attainable
    rcases Counter.attainable_iff.mp attainable with ⟨order, reordered, rfl⟩
    rw [List.perm_replicate.mp reordered]
    decide +kernel
  refine ⟨(profile.counters_converge_iff (.owner "me") increments).2.2.1.mpr ?_ [first, second]
    [second, first] (.refl _) (.swap first second []), by decide +kernel⟩
  intro key left right leftAttainable rightAttainable
  beta_reduce at leftAttainable rightAttainable
  by_cases here : "c" = key
  · subst here
    have amounts : Counter.amounts "c" (profile.carried [first, second]) =
        List.replicate 2 largestSafe := by
      rw [carried, List.filterMap_cons_some carriesFirst, List.filterMap_cons_some carriesSecond]
      decide +kernel
    rw [amounts] at leftAttainable rightAttainable
    rw [refused left leftAttainable, refused right rightAttainable]
  · have nothing : Counter.amounts key (profile.carried [first, second]) = [] := by
      rw [carried, List.filterMap_cons_some carriesFirst, List.filterMap_cons_some carriesSecond]
      simp [Counter.amounts, Counter.amount?, here]
    rw [nothing] at leftAttainable rightAttainable
    rw [leftAttainable.eq_sum (Nat.zero_le _), rightAttainable.eq_sum (Nat.zero_le _)]

/-- Two increments that have no room beside each other: the one that comes first is counted. -/
theorem counters_diverge :
    ¬ ∀ (feed order : List Message), order.Perm feed →
      (∀ message ∈ feed, ∃ key amount,
        decoded? ⟨.standard, .plain, .unavailable⟩ message =
          some (.counterIncrement key amount)) →
      (hear ⟨.standard, .plain, .unavailable⟩ .attentive feed .empty).replica.counters =
        (hear ⟨.standard, .plain, .unavailable⟩ .attentive order .empty).replica.counters := by
  intro converge
  let one : Message :=
    ⟨"f0", 1, "peer", "\x7b\"GCounter\":\x7b\"key\":\"c\",\"increment\":1\x7d\x7d",
      [["t", "nostr-crdt"]]⟩
  let most : Message :=
    ⟨"f1", 1, "peer",
      "\x7b\"GCounter\":\x7b\"key\":\"c\",\"increment\":9007199254740991\x7d\x7d",
      [["t", "nostr-crdt"]]⟩
  have carriesOne : decoded? ⟨.standard, .plain, .unavailable⟩ one =
      some (.counterIncrement "c" 1) := by decide +kernel
  have carriesMost : decoded? ⟨.standard, .plain, .unavailable⟩ most =
      some (.counterIncrement "c" (.ofNat largestSafe)) := by decide +kernel
  have same := congrArg (·.read? "c") (converge [one, most] [most, one] (.swap one most [])
    (List.forall_mem_cons.mpr
      ⟨⟨_, _, carriesOne⟩, List.forall_mem_singleton.mpr ⟨_, _, carriesMost⟩⟩))
  revert same
  decide +kernel

end Profile

end ConvergentStore
