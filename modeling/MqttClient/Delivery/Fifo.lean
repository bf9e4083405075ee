/-!
# Sequences in order of arrival

A sequence grows at its end and shrinks at its front. What came last is held in reverse order until
the front runs out, and the size is kept beside it, so that growing, shrinking and counting do not
go through the sequence. What a sequence holds is the list of its elements.
-/

namespace MqttClient

/-- A sequence in order of arrival. -/
structure Fifo (α : Type) where
  /-- The elements that came first, in order. -/
  front : List α
  /-- The other elements, the last one first. -/
  back : List α
  /-- The number of elements. -/
  size : Nat
  size_eq : size = front.length + back.length

namespace Fifo
variable {α : Type}

/-- The sequence without elements. -/
def empty : Fifo α :=
  ⟨[], [], 0, rfl⟩

instance : Inhabited (Fifo α) := ⟨empty⟩

def toList (q : Fifo α) : List α :=
  q.front ++ q.back.reverse

/-- The sequence of the elements of a list. -/
def ofList (xs : List α) : Fifo α :=
  ⟨xs, [], xs.length, rfl⟩

/-- Whether there are no elements. -/
def isEmpty (q : Fifo α) : Bool :=
  q.size = 0

/-- The sequence with an element at its end. -/
def push (q : Fifo α) (x : α) : Fifo α :=
  ⟨q.front, x :: q.back, q.size + 1, by simp [q.size_eq, Nat.add_assoc]⟩

/-- The sequence with the elements of a list at its end. -/
def pushAll (q : Fifo α) (xs : List α) : Fifo α :=
  xs.foldl push q

/-- The first element and the sequence without it, if there are elements. -/
def pop? : Fifo α → Option (α × Fifo α)
  | ⟨x :: front, back, size, h⟩ => some (x, ⟨front, back, size - 1, by simp at h; omega⟩)
  | ⟨[], back, _, _⟩ =>
    match back.reverse with
    | [] => none
    | x :: front => some (x, ofList front)

/-- An empty queue has no elements. -/
@[simp]
theorem toList_empty : (empty : Fifo α).toList = [] :=
  rfl

/-- A queue that is made of a list has the elements of the list. -/
@[simp]
theorem toList_ofList (xs : List α) : (ofList xs).toList = xs := by
  simp [ofList, toList]

/-- What is pushed comes last. -/
@[simp]
theorem toList_push (q : Fifo α) (x : α) : (q.push x).toList = q.toList ++ [x] := by
  simp [push, toList]

/-- What is pushed together comes last, in its order. -/
@[simp]
theorem toList_pushAll (q : Fifo α) (xs : List α) : (q.pushAll xs).toList = q.toList ++ xs := by
  induction xs generalizing q with
  | nil => simp [pushAll]
  | cons x xs ih => simpa [pushAll] using ih (q.push x)

/-- The size is the number of elements. -/
theorem size_eq_length (q : Fifo α) : q.size = q.toList.length := by
  simp [toList, q.size_eq]

/-- A queue is empty if it has no elements. -/
theorem isEmpty_iff (q : Fifo α) : q.isEmpty = true ↔ q.toList = [] := by
  simp [isEmpty, size_eq_length]

/-- Taking fails only if there are no elements. -/
theorem pop?_eq_none_iff (q : Fifo α) : q.pop? = none ↔ q.toList = [] := by
  rcases q with ⟨_ | ⟨x, front⟩, back, size, h⟩
  · cases hb : back.reverse <;> simp [pop?, toList, hb]
  · simp [pop?, toList]

/-- Taking takes the first element. -/
theorem toList_of_pop? {q r : Fifo α} {x : α} (h : q.pop? = some (x, r)) :
    q.toList = x :: r.toList := by
  rcases q with ⟨_ | ⟨y, front⟩, back, size, hs⟩
  · cases hb : back.reverse with
    | nil => simp [pop?, hb] at h
    | cons y ys =>
      simp only [pop?, hb, Option.some.injEq, Prod.mk.injEq] at h
      obtain ⟨rfl, rfl⟩ := h
      simp [toList, hb, ofList]
  · simp only [pop?, Option.some.injEq, Prod.mk.injEq] at h
    obtain ⟨rfl, rfl⟩ := h
    simp [toList]

end Fifo
end MqttClient
