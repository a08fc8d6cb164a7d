namespace MappedMetrics

/-- A queue whose receiving end may be gone. -/
structure Channel (α : Type) where
  capacity : Nat
  queue : List α
  /-- Whether the receiving end is still there. -/
  isOpen : Bool

inductive Sent where
  | accepted
  | full
  | disconnected
deriving DecidableEq, Repr

namespace Channel

variable {α : Type}

def ofCapacity (capacity : Nat) : Channel α :=
  ⟨capacity, [], true⟩

/-- Appends an item, if the receiving end is there and the queue has room. -/
def send (channel : Channel α) (item : α) : Channel α × Sent :=
  if !channel.isOpen then (channel, .disconnected)
  else if channel.capacity ≤ channel.queue.length then (channel, .full)
  else ({ channel with queue := channel.queue ++ [item] }, .accepted)

/-- Sends all items at once, if there is room for all of them. -/
def sendAll? (channel : Channel α) (items : List α) : Option (Channel α) :=
  if channel.isOpen && channel.queue.length + items.length ≤ channel.capacity then
    some { channel with queue := channel.queue ++ items }
  else none

def receive (channel : Channel α) : Option (α × Channel α) :=
  match channel.queue with
  | [] => none
  | item :: rest => some (item, { channel with queue := rest })

/-- Drops the receiving end with everything that is still queued. -/
def close (channel : Channel α) : Channel α :=
  { channel with queue := [], isOpen := false }

theorem send_of_closed {channel : Channel α} (hclosed : channel.isOpen = false) (item : α) :
    channel.send item = (channel, .disconnected) := by
  simp only [send, hclosed, Bool.not_false, if_true]

theorem capacity_send (channel : Channel α) (item : α) :
    (channel.send item).1.capacity = channel.capacity := by
  rw [send]
  split
  · rfl
  · split <;> rfl

theorem isOpen_send (channel : Channel α) (item : α) :
    (channel.send item).1.isOpen = channel.isOpen := by
  rw [send]
  split
  · rfl
  · split <;> rfl

theorem queue_send (channel : Channel α) (item : α) :
    (channel.send item).1.queue = channel.queue ∨
      (channel.send item).1.queue = channel.queue ++ [item] := by
  rw [send]
  split
  · exact .inl rfl
  · split
    · exact .inl rfl
    · exact .inr rfl

theorem length_queue_send_le {channel : Channel α} (item : α)
    (h : channel.queue.length ≤ channel.capacity) :
    (channel.send item).1.queue.length ≤ (channel.send item).1.capacity := by
  rw [send]
  split
  · exact h
  · split
    · exact h
    · simp only [List.length_append, List.length_singleton]
      omega

theorem send_of_sendAll? {channel later : Channel α} {item : α} {items : List α}
    (h : channel.sendAll? (item :: items) = some later) :
    channel.send item = ({ channel with queue := channel.queue ++ [item] }, .accepted) ∧
      sendAll? { channel with queue := channel.queue ++ [item] } items = some later := by
  simp only [sendAll?, List.length_cons, Bool.and_eq_true, decide_eq_true_eq] at h
  split at h
  · rename_i hroom
    obtain ⟨hopen, hlength⟩ := hroom
    cases h
    have hfree : ¬ channel.capacity ≤ channel.queue.length := by omega
    have hmore : channel.queue.length + 1 + items.length ≤ channel.capacity := by omega
    constructor
    · simp [send, hopen, hfree]
    · simp [sendAll?, hopen, hmore]
  · cases h

end Channel

end MappedMetrics
