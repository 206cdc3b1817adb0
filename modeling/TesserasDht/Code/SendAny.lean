import TesserasDht.Code.Message

/-!
# One request to many addresses

`send_request_any` of `src/node.rs`, one iteration of its loop after the other. The tasks of the node see
it as one request.
-/

namespace TesserasDht

/-- An address with its place in the list, from `addrs.iter().enumerate()`. -/
abbrev Attempt := SocketAddr × Nat

/-- The variables of the loop. A future in `futs` is a request in flight. -/
structure Attempts where
  futs : List Attempt
  pending : List Attempt
  lastErr : TesseraError

/-- Where a call is. -/
inductive Progress
  /-- The request to the only address is awaited. -/
  | direct
  | select (a : Attempts)
  | returned (result : Except TesseraError Message)
  /-- `unwrap` of `None`. -/
  | unwrapped
  /-- `select!` without an enabled branch and without `else`. -/
  | allDisabled

structure SendAny where
  launched : List Attempt
  progress : Progress

namespace SendAny

/-- `Some(result) = futs.next()`: an empty set gives `None`, and the branch is off. -/
def nextEnabled (a : Attempts) : Prop := a.futs ≠ []

/-- `if pending.peek().is_some()`. -/
def staggerEnabled (a : Attempts) : Prop := a.pending ≠ []

instance (a : Attempts) : Decidable (nextEnabled a) := inferInstanceAs (Decidable (a.futs ≠ []))

instance (a : Attempts) : Decidable (staggerEnabled a) := inferInstanceAs (Decidable (a.pending ≠ []))

/-- The head of the loop, and the branches that `select!` waits for. -/
def loop (launched : List Attempt) (a : Attempts) : SendAny :=
  if a.futs = [] ∧ a.pending = [] then
    ⟨launched, .returned (.error a.lastErr)⟩
  else if nextEnabled a ∨ staggerEnabled a then
    ⟨launched, .select a⟩
  else
    ⟨launched, .allDisabled⟩

def start (addrs : List SocketAddr) : SendAny :=
  match addrs.zipIdx with
  | [] => ⟨[], .returned (.error (.network "no addresses to try"))⟩
  | [only] => ⟨[only], .direct⟩
  | first :: pending =>
    loop [first] { futs := [first], pending, lastErr := .network "no addresses to try" }

/-- The request to the address at `i` ends, or the timer fires. -/
inductive Wake
  | completed (i : Nat) (result : Except TesseraError Message)
  | stagger

def step (s : SendAny) : Wake → SendAny
  | .completed i result => match s.progress with
    | .direct => { s with progress := .returned result }
    | .select a => match result with
      | .ok resp => { s with progress := .returned (.ok resp) }
      | .error e => loop s.launched { a with futs := a.futs.eraseP fun f => f.2 = i, lastErr := e }
    | _ => s
  | .stagger => match s.progress with
    | .select a => match a.pending with
      | [] => { s with progress := .unwrapped }
      | next :: pending => loop (s.launched ++ [next]) { a with futs := a.futs ++ [next], pending }
    | _ => s

/-- Only a request in flight can end, and the timer only runs while its branch is on. -/
def Possible (s : SendAny) : Wake → Prop
  | .completed i _ => match s.progress with
    | .direct => i = 0
    | .select a => nextEnabled a ∧ i ∈ a.futs.map Prod.snd
    | _ => False
  | .stagger => match s.progress with
    | .select a => staggerEnabled a
    | _ => False

end SendAny

end TesserasDht
