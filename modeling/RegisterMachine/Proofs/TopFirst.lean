import RegisterMachine.Stack

/-!
The stack as a list with the newest value first. The values are kept with the newest last, and offsets
count from the other end; seen as a list, an offset is a position. Every request to a stack is answered
as the list answers it and leaves the list that it leaves, so a whole session does too, within the limit
of the stack.
-/
namespace RegisterMachine.Stack

/-- The values with the newest first. -/
def contents (stack : Stack) : List Value := stack.values.toList.reverse

def ofContents (limit : Option Nat) (values : List Value) : Stack := ⟨values.reverse.toArray, limit⟩

@[simp] theorem contents_ofContents (limit : Option Nat) (values : List Value) :
    (ofContents limit values).contents = values := List.reverse_reverse values

@[simp] theorem size_ofContents (limit : Option Nat) (values : List Value) :
    (ofContents limit values).size = values.length := by
  simp [ofContents, size]

@[simp] theorem ofContents_contents (stack : Stack) :
    ofContents stack.limit stack.contents = stack := by
  simp [ofContents, contents]

/-- What can be asked of a stack, by the type of the answer. -/
inductive Request : Type → Type 1 where
  | push (value : Value) : Request Unit
  | pop : Request Value
  | popAt (offset : Nat) : Request Value
  | peek : Request Value
  | peekAt (offset : Nat) : Request Value
  | popAs (α : Type) [OfValue α] : Request α
  | setCount (count : Nat) : Request Unit

namespace Request

variable {α : Type}

/-- A request that fails leaves the stack as it was. -/
def settle (stack : Stack) : Except Fault (α × Stack) → Except Fault α × Stack
  | .ok (a, after) => (.ok a, after)
  | .error fault => (.error fault, stack)

def serve (stack : Stack) : Request α → Except Fault α × Stack
  | .push value => settle stack ((stack.push value).map fun after => ((), after))
  | .pop => settle stack stack.pop
  | .popAt offset => settle stack (stack.popAt offset)
  | .peek => (stack.peek, stack)
  | .peekAt offset => (stack.peekAt offset, stack)
  | @popAs α _ => stack.popAs α
  | .setCount count => (.ok (), stack.setCount count)

/-- The value at a position of a list. The depth in the fault is kept within the range of a word. -/
def lookUp (values : List Value) (position : Nat) : Except Fault Value :=
  match values[position]? with
  | some value => .ok value
  | none => .error (.stackUnderflow (min (position + 1) (UInt64.size - 1)) values.length)

def onList (limit : Option Nat) (values : List Value) : Request α → Except Fault α × List Value
  | .push value =>
    match limit with
    | some most =>
      if values.length < most then (.ok (), value :: values)
      else (.error (.stackOverflow most), values)
    | none => (.ok (), value :: values)
  | .pop => (lookUp values 0, values.tail)
  | .popAt offset => (lookUp values offset, values.eraseIdx offset)
  | .peek => (lookUp values 0, values)
  | .peekAt offset => (lookUp values offset, values)
  | @popAs _ _ => (lookUp values 0 >>= ofValue, values.tail)
  | .setCount count => (.ok (), values.drop (values.length - count))

def session {S : Type} (serve : ∀ {α : Type}, S → Request α → Except Fault α × S) :
    List ((α : Type) × Request α) → S → List ((α : Type) × Except Fault α) × S
  | [], state => ([], state)
  | ⟨α, request⟩ :: rest, state =>
    let (answer, after) := serve state request
    let (answers, last) := session serve rest after
    (⟨α, answer⟩ :: answers, last)

end Request

theorem reverse_eraseIdx (values : List Value) {offset : Nat} (h : offset < values.length) :
    values.reverse.eraseIdx (values.length - 1 - offset) = (values.eraseIdx offset).reverse := by
  have hfront : values.length - (offset + 1) = values.length - 1 - offset := by omega
  have hback : values.length - offset = values.length - 1 - offset + 1 := by omega
  rw [List.eraseIdx_eq_take_drop_succ, List.eraseIdx_eq_take_drop_succ, List.reverse_append,
    List.reverse_drop, List.reverse_take, hfront, hback]

theorem peekAt_ofContents (limit : Option Nat) (values : List Value) (offset : Nat) :
    (ofContents limit values).peekAt offset = Request.lookUp values offset := by
  unfold peekAt Request.lookUp
  by_cases hinside : offset < (ofContents limit values).size
  · have hlist : offset < values.length := by rwa [size_ofContents] at hinside
    have hback : values.length - 1 - (values.length - 1 - offset) = offset := by omega
    rw [dif_pos hinside, List.getElem?_eq_getElem hlist]
    simp only [ofContents, List.size_toArray, List.length_reverse, List.getElem_toArray,
      List.getElem_reverse, hback]
  · have hpast : values.length ≤ offset := by rwa [size_ofContents, Nat.not_lt] at hinside
    rw [dif_neg hinside, size_ofContents, List.getElem?_eq_none hpast]
    rfl

theorem popAt_ofContents (limit : Option Nat) (values : List Value) (offset : Nat) :
    (ofContents limit values).popAt offset =
      (Request.lookUp values offset).map (·, ofContents limit (values.eraseIdx offset)) := by
  rw [← peekAt_ofContents limit]
  unfold popAt peekAt
  by_cases hinside : offset < (ofContents limit values).size
  · have hlist : offset < values.length := by rwa [size_ofContents] at hinside
    rw [dif_pos hinside, dif_pos hinside]
    simp only [ofContents, List.size_toArray, List.length_reverse, List.eraseIdx_toArray,
      reverse_eraseIdx values hlist]
    rfl
  · rw [dif_neg hinside, dif_neg hinside]
    rfl

theorem push_ofContents (limit : Option Nat) (values : List Value) (value : Value) :
    (ofContents limit values).push value =
      match limit with
      | some most =>
        if values.length < most then .ok (ofContents limit (value :: values))
        else .error (.stackOverflow most)
      | none => .ok (ofContents limit (value :: values)) := by
  have hvalues : (ofContents limit values).values.push value =
      (value :: values).reverse.toArray := by simp [ofContents]
  unfold push
  rw [hvalues, size_ofContents]
  cases limit with
  | none => rfl
  | some most =>
    change (if most ≤ values.length then _ else _) = if values.length < most then _ else _
    by_cases hroom : values.length < most
    · rw [if_neg (Nat.not_le.mpr hroom), if_pos hroom]
      rfl
    · rw [if_pos (Nat.not_lt.mp hroom), if_neg hroom]

theorem setCount_ofContents (limit : Option Nat) (values : List Value) (count : Nat) :
    (ofContents limit values).setCount count =
      ofContents limit (values.drop (values.length - count)) := by
  have hkept : values.reverse.take count = (values.drop (values.length - count)).reverse := by
    rw [← List.reverse_reverse (values.reverse.take count), List.reverse_take, List.length_reverse,
      List.reverse_reverse]
  simp only [setCount, ofContents, Array.take_eq_extract, List.extract_toArray,
    List.extract_eq_take_drop, List.drop_zero, Nat.sub_zero, hkept]

/-- The values above the count are popped one by one. -/
theorem setCount_eq (stack : Stack) (count : Nat) :
    stack.setCount count =
      if count < stack.size then
        match stack.pop with
        | .ok (_, rest) => rest.setCount count
        | .error _ => stack
      else stack := by
  rw [← ofContents_contents stack]
  generalize stack.limit = limit, stack.contents = values
  rw [setCount_ofContents, size_ofContents, pop, popAt_ofContents]
  by_cases hmore : count < values.length
  · rw [if_pos hmore]
    cases values with
    | nil => cases hmore
    | cons value rest =>
      have hless : (value :: rest).length - count = rest.length - count + 1 := by
        rw [List.length_cons] at hmore ⊢
        omega
      rw [hless, List.drop_succ_cons, ← setCount_ofContents]
      rfl
  · rw [if_neg hmore, Nat.sub_eq_zero_of_le (Nat.le_of_not_lt hmore), List.drop_zero]

namespace Request

variable {α : Type}

theorem settle_lookUp (limit : Option Nat) (values : List Value) (offset : Nat) :
    settle (ofContents limit values)
        ((lookUp values offset).map (·, ofContents limit (values.eraseIdx offset))) =
      (lookUp values offset, ofContents limit (values.eraseIdx offset)) := by
  unfold lookUp
  cases hvalue : values[offset]? with
  | some value => rfl
  | none =>
    rw [List.eraseIdx_of_length_le (List.getElem?_eq_none_iff.mp hvalue)]
    rfl

theorem serve_ofContents (limit : Option Nat) (values : List Value) (request : Request α) :
    serve (ofContents limit values) request =
      ((onList limit values request).1, ofContents limit (onList limit values request).2) := by
  cases request with
  | push value =>
    rw [serve, push_ofContents]
    cases limit with
    | none => rfl
    | some most =>
      rw [onList]
      dsimp only
      split <;> rfl
  | pop => rw [serve, onList, Stack.pop, popAt_ofContents, settle_lookUp, List.eraseIdx_zero]
  | popAt offset => rw [serve, onList, popAt_ofContents, settle_lookUp]
  | peek => rw [serve, onList, Stack.peek, peekAt_ofContents]
  | peekAt offset => rw [serve, onList, peekAt_ofContents]
  | popAs α =>
    rw [serve, onList, Stack.popAs, Stack.pop, popAt_ofContents, List.eraseIdx_zero]
    cases values with
    | nil => rfl
    | cons value rest => rfl
  | setCount count => rw [serve, onList, setCount_ofContents]

theorem session_ofContents (limit : Option Nat) (requests : List ((α : Type) × Request α))
    (values : List Value) :
    session serve requests (ofContents limit values) =
      ((session (onList limit) requests values).1,
        ofContents limit (session (onList limit) requests values).2) := by
  induction requests generalizing values with
  | nil => rfl
  | cons request rest ih =>
    unfold session
    rw [serve_ofContents]
    dsimp only
    rw [ih]

theorem length_onList_le {most : Nat} {values : List Value} (h : values.length ≤ most)
    (request : Request α) : (onList (some most) values request).2.length ≤ most := by
  cases request with
  | push value =>
    rw [onList]
    by_cases hroom : values.length < most
    · rw [if_pos hroom]
      exact hroom
    · rw [if_neg hroom]
      exact h
  | pop => exact Nat.le_trans (values.tail_sublist.length_le) h
  | popAt offset => exact Nat.le_trans (values.eraseIdx_sublist offset).length_le h
  | peek => exact h
  | peekAt offset => exact h
  | popAs α => exact Nat.le_trans (values.tail_sublist.length_le) h
  | setCount count => exact Nat.le_trans (values.drop_sublist _).length_le h

theorem length_session_le {most : Nat} {values : List Value} (h : values.length ≤ most)
    (requests : List ((α : Type) × Request α)) :
    (session (onList (some most)) requests values).2.length ≤ most := by
  induction requests generalizing values with
  | nil => exact h
  | cons request rest ih => exact ih (length_onList_le h request.2)

theorem lookUp_eq_error {values : List Value} {position : Nat} {fault : Fault}
    (h : lookUp values position = .error fault) : values.length ≤ position := by
  unfold lookUp at h
  split at h
  · cases h
  · rename_i hnone
    exact List.getElem?_eq_none_iff.mp hnone

theorem onList_failed {limit : Option Nat} {values : List Value} {request : Request α}
    {fault : Fault} (h : (onList limit values request).1 = .error fault) :
    (onList limit values request).2 = values ∨
      ∃ (_ : OfValue α) (value : Value), request = .popAs α ∧
        values = value :: (onList limit values request).2 ∧
        (ofValue value : Except Fault α) = .error fault := by
  cases request with
  | push value =>
    left
    cases limit with
    | none => cases h
    | some most =>
      rw [onList] at h ⊢
      split at h
      · cases h
      · rename_i hfull
        rw [if_neg hfull]
  | pop =>
    left
    have hempty := List.eq_nil_of_length_eq_zero (Nat.le_zero.mp (lookUp_eq_error h))
    rw [hempty]
    rfl
  | popAt offset => exact .inl (List.eraseIdx_of_length_le (lookUp_eq_error h))
  | peek => exact .inl rfl
  | peekAt offset => exact .inl rfl
  | popAs α =>
    cases values with
    | nil => exact .inl rfl
    | cons value rest => exact .inr ⟨_, value, rfl, rfl, h⟩
  | setCount count => cases h

end Request

open Request in
/-- The stack is a list with the newest value first. Whatever is asked of a stack that starts out empty,
in any order, the answers are those of the list and the values are those of the list, never more than
the limit allows. A request that fails changes nothing, except that a top which does not read as what
was asked for is gone, and only the top. -/
theorem stack_serves_as_list (limit : Option Nat) (requests : List ((α : Type) × Request α)) :
    let stack := (session serve requests ({ limit } : Stack)).2
    (session serve requests ({ limit } : Stack)).1 = (session (onList limit) requests []).1 ∧
    stack.contents = (session (onList limit) requests []).2 ∧
    stack.limit = limit ∧ (∀ most, limit = some most → stack.size ≤ most) ∧
    ∀ {α : Type} (request : Request α) (fault : Fault), (serve stack request).1 = .error fault →
      (serve stack request).2 = stack ∨
      ∃ (_ : OfValue α) (value : Value), request = .popAs α ∧
        (ofValue value : Except Fault α) = .error fault ∧
        stack.contents = value :: (serve stack request).2.contents ∧
        (serve stack request).2.limit = limit := by
  have hsession := session_ofContents limit requests []
  change session serve requests ({ limit } : Stack) = _ at hsession
  rw [hsession]
  refine ⟨rfl, contents_ofContents _ _, rfl, ?_, ?_⟩
  · rintro most rfl
    rw [size_ofContents]
    exact length_session_le (Nat.zero_le most) requests
  · intro α request fault hfault
    rw [serve_ofContents] at hfault ⊢
    rcases onList_failed hfault with hsame | ⟨reader, value, hrequest, hvalues, hvalue⟩
    · left
      rw [hsame]
    · right
      simp only [contents_ofContents]
      exact ⟨reader, value, hrequest, hvalue, hvalues, rfl⟩

open Request in
theorem stack_serves_as_list_crowded :
    let requests : List ((α : Type) × Request α) :=
      [⟨_, .push (.int 1)⟩, ⟨_, .push (.text "x")⟩, ⟨_, .push (.int 2)⟩, ⟨_, .peekAt 1⟩,
        ⟨_, .popAt 0xffffffffffffffff⟩, ⟨_, .setCount 5⟩]
    let stack := (session serve requests ({ limit := some 2 } : Stack)).2
    (session serve requests ({ limit := some 2 } : Stack)).1 =
      [⟨Unit, .ok ()⟩, ⟨Unit, .ok ()⟩, ⟨Unit, .error (.stackOverflow 2)⟩, ⟨Value, .ok (.int 1)⟩,
        ⟨Value, .error (.stackUnderflow 0xffffffffffffffff 2)⟩, ⟨Unit, .ok ()⟩] ∧
    stack.size ≤ 2 ∧ stack.contents = [.text "x", .int 1] ∧
    (serve stack (.popAs Int64)).1 = .error (.notNumeric .int "x") ∧
    (serve stack (.popAs Int64)).2.contents = [.int 1] := by
  intro requests stack
  obtain ⟨hanswers, hvalues, -, hsize, hfailed⟩ := stack_serves_as_list (some 2) requests
  have hfault : (serve stack (.popAs Int64)).1 = .error (.notNumeric .int "x") := rfl
  refine ⟨hanswers, hsize 2 rfl, hvalues, hfault, ?_⟩
  rcases hfailed (.popAs Int64) _ hfault with hsame | ⟨-, value, -, -, hcontents, -⟩
  · exact absurd (congrArg size hsame) (by decide +kernel)
  · exact (List.cons.inj (hcontents.symm.trans hvalues)).2

end RegisterMachine.Stack
