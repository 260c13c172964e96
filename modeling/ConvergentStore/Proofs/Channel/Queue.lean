import ConvergentStore.Channel.Hub

/-!
# Queues of subscriptions

What a subscription has in store grows by each publication that it receives and
shrinks by each message that is taken from it.
-/

namespace ConvergentStore

namespace Subscription

/-- Delivery takes a message from those in store, unless the publication is passed over. -/
theorem waiting_of_next?
    {subscription rest : Subscription}
    {message? : Option Message}
    (next : subscription.next? = some (message?, rest)) :
    rest.endpoint = subscription.endpoint ∧
      rest.filter = subscription.filter ∧
      subscription.waiting = message?.toList ++ rest.waiting := by
  rcases subscription with ⟨endpoint, filter, queue⟩
  cases queue with
  | nil => cases next
  | cons delivery later =>
      simp only [next?, Option.some.injEq, Prod.mk.injEq] at next
      rcases next with ⟨rfl, rfl⟩
      refine ⟨rfl, rfl, ?_⟩
      simp only [waiting, List.filter_cons]
      have same : ∀ other : List Delivery,
          receives ⟨endpoint, filter, other⟩ = receives ⟨endpoint, filter, later⟩ :=
        fun _ => rfl
      rw [same]
      split <;> simp [*]

/-- A publication adds a message to those in store, unless it is to be passed over. -/
theorem waiting_concat
    (subscription : Subscription)
    (delivery : Delivery) :
    waiting { subscription with queue := subscription.queue ++ [delivery] } =
      subscription.waiting ++
        if subscription.receives delivery then [delivery.message] else [] := by
  rcases subscription with ⟨endpoint, filter, queue⟩
  have same : receives ⟨endpoint, filter, queue ++ [delivery]⟩ =
      receives ⟨endpoint, filter, queue⟩ :=
    rfl
  simp only [waiting, same, List.filter_append, List.map_append, List.filter_cons,
    List.filter_nil]
  split <;> simp [*]

end Subscription

end ConvergentStore
