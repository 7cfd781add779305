import Calculator.Proofs.Parse.OpenGroups

/-!
# Work that leaves a record

The parser works on three cells: the tokens ahead, the number of open levels and
the open groups.  An action is a piece of this work.  Running it gives a result,
the cells at the end and a record of what happened on the way: each moment with
the cells as they were then.  Every change of the cells is recorded, with the
cells after it, so that no state is passed over.

An action that the fuel does not suffice for comes to no result at all, which is
kept apart from a failure.

`Ensures guarantee action cells post blame` is the triple of an action that is
started with `cells`.  The action comes to a result; a value satisfies `post`, a
failure satisfies `blame`, and every moment on the way satisfies `guarantee`.
There is one rule for each primitive action and one for putting two together.
-/

namespace Calculator.Parse

/-- What one moment of a run is about. -/
inductive Event where
  /-- A production is called. -/
  | called (production : Production)
  /-- The failure for tokens that end too early is asked for. -/
  | endReported
  /-- The cells have been changed. -/
  | changed
  /-- A minus was seen ahead, and then there was no token to take. -/
  | minusMissing
  /-- An operator was seen ahead, and then there was no token to take. -/
  | operatorMissing
  /-- An operator was seen ahead, and then the token that was taken was none. -/
  | operatorRefused

/-- A moment of a run, with the cells as they are then. -/
structure Moment where
  event : Event
  cells : Reading

/-- What an action comes to. -/
structure Run (α : Type) where
  /-- What happened, in order. -/
  moments : List Moment
  /-- The value or the failure, or nothing if the fuel gave out. -/
  result : Option (Except Failure α)
  /-- The cells at the end. -/
  cells : Reading

/-- Work on the cells. -/
def Action (α : Type) : Type :=
  Reading → Run α

variable {α β : Type}

/-- Goes on with the value of a run.  A failure ends the work there. -/
def Run.andThen (run : Run α) (next : α → Action β) : Run β :=
  match run.result with
  | some (.ok a) =>
      let later := next a run.cells
      ⟨run.moments ++ later.moments, later.result, later.cells⟩
  | some (.error failure) => ⟨run.moments, some (.error failure), run.cells⟩
  | none => ⟨run.moments, none, run.cells⟩

namespace Action

instance : Monad Action where
  pure a := fun cells => ⟨[], some (.ok a), cells⟩
  bind action next := fun cells => (action cells).andThen next

def fail (failure : Failure) : Action α :=
  fun cells => ⟨[], some (.error failure), cells⟩

/-- Stands where the fuel gives out. -/
def cut : Action α :=
  fun cells => ⟨[], none, cells⟩

def record (event : Event) : Action Unit :=
  fun cells => ⟨[⟨event, cells⟩], some (.ok ()), cells⟩

def getCells : Action Reading :=
  fun cells => ⟨[], some (.ok cells), cells⟩

def change (f : Reading → Reading) : Action Unit :=
  fun cells => ⟨[⟨.changed, f cells⟩], some (.ok ()), f cells⟩

/-- Changes the cells after an action, whatever the action has come to. -/
def thenChange (action : Action α) (f : Reading → Reading) : Action α :=
  fun cells =>
    let run := action cells
    ⟨run.moments ++ [⟨.changed, f run.cells⟩], run.result, f run.cells⟩

/-- The kind of the next token, which is left where it is. -/
def peek : Action (Option Token.Kind) := do
  return (← getCells).ahead.head?.map Token.kind

/-- Takes the next token. -/
def advance : Action (Option Token) := do
  match (← getCells).ahead with
  | [] => return none
  | token :: more => do
      change fun cells => { cells with ahead := more }
      return some token

end Action

/-! ## Triples -/

/-- Whether a run has come to a result, and the result is as it should be. -/
def Run.Ends (run : Run α) (post : α → Reading → Prop) (blame : Failure → Reading → Prop) : Prop :=
  match run.result with
  | some (.ok a) => post a run.cells
  | some (.error failure) => blame failure run.cells
  | none => False

theorem Run.Ends.imp {run : Run α} {post post' : α → Reading → Prop}
    {blame blame' : Failure → Reading → Prop} (h : run.Ends post blame)
    (hpost : ∀ a rest, post a rest → post' a rest)
    (hblame : ∀ failure rest, blame failure rest → blame' failure rest) : run.Ends post' blame' := by
  obtain ⟨moments, _ | failure | a, rest⟩ := run
  · exact h
  · exact hblame failure rest h
  · exact hpost a rest h

/-- What holds of the cells at the end, whatever the run has come to. -/
theorem Run.Ends.holds {run : Run α} {claim : Reading → Prop}
    (h : run.Ends (fun _ rest => claim rest) (fun _ rest => claim rest)) : claim run.cells := by
  obtain ⟨moments, _ | failure | a, rest⟩ := run
  · exact h.elim
  · exact h
  · exact h

/-- The triple of an action that is started with `cells`. -/
structure Ensures (guarantee : Moment → Prop) (action : Action α) (cells : Reading)
    (post : α → Reading → Prop) (blame : Failure → Reading → Prop) : Prop where
  guaranteed : ∀ moment ∈ (action cells).moments, guarantee moment
  ends : (action cells).Ends post blame

namespace Ensures

open Calculator.Parse.Action

variable {guarantee guarantee' : Moment → Prop} {action : Action α} {next : α → Action β}
  {cells : Reading} {post post' : α → Reading → Prop} {postNext : β → Reading → Prop}
  {blame blame' : Failure → Reading → Prop}

theorem pure {a : α} (h : post a cells) :
    Ensures guarantee (Pure.pure a : Action α) cells post blame where
  guaranteed := by simp [Pure.pure]
  ends := h

theorem fail {failure : Failure} (h : blame failure cells) :
    Ensures guarantee (fail failure : Action α) cells post blame where
  guaranteed := by simp [Action.fail]
  ends := h

theorem record {event : Event} {post : Unit → Reading → Prop}
    (hmoment : guarantee ⟨event, cells⟩) (h : post () cells) :
    Ensures guarantee (record event) cells post blame where
  guaranteed := by simpa [Action.record] using hmoment
  ends := h

theorem getCells {post : Reading → Reading → Prop} (h : post cells cells) :
    Ensures guarantee getCells cells post blame where
  guaranteed := by simp [Action.getCells]
  ends := h

theorem change {f : Reading → Reading} {post : Unit → Reading → Prop}
    (hmoment : guarantee ⟨.changed, f cells⟩) (h : post () (f cells)) :
    Ensures guarantee (change f) cells post blame where
  guaranteed := by simpa [Action.change] using hmoment
  ends := h

theorem bind (h : Ensures guarantee action cells
      (fun a rest => Ensures guarantee (next a) rest postNext blame) blame) :
    Ensures guarantee (action >>= next) cells postNext blame := by
  obtain ⟨hmoments, hends⟩ := h
  have hbind : (action >>= next) cells = (action cells).andThen next := rfl
  rcases hrun : action cells with ⟨moments, _ | failure | a, rest⟩ <;>
    rw [hrun] at hmoments hends hbind
  · exact hends.elim
  · exact ⟨by rwa [hbind], by rwa [hbind]⟩
  · obtain ⟨hlater, hends'⟩ : Ensures guarantee (next a) rest postNext blame := hends
    refine ⟨?_, by rwa [hbind]⟩
    rw [hbind]
    exact fun moment hmoment =>
      (List.mem_append.1 hmoment).elim (hmoments moment) (hlater moment)

theorem mono (h : Ensures guarantee action cells post blame)
    (hguarantee : ∀ moment, guarantee moment → guarantee' moment)
    (hpost : ∀ a rest, post a rest → post' a rest)
    (hblame : ∀ failure rest, blame failure rest → blame' failure rest) :
    Ensures guarantee' action cells post' blame' where
  guaranteed moment hmoment := hguarantee moment (h.guaranteed moment hmoment)
  ends := h.ends.imp hpost hblame

theorem thenChange {f : Reading → Reading}
    (h : Ensures guarantee action cells
      (fun a rest => guarantee ⟨.changed, f rest⟩ ∧ post a (f rest))
      (fun failure rest => guarantee ⟨.changed, f rest⟩ ∧ blame failure (f rest))) :
    Ensures guarantee (thenChange action f) cells post blame := by
  have hmoment : guarantee ⟨.changed, f (action cells).cells⟩ :=
    (h.ends.imp (fun _ _ => And.left) fun _ _ => And.left).holds
  have hends : (action cells).Ends (fun a rest => post a (f rest))
      (fun failure rest => blame failure (f rest)) :=
    h.ends.imp (fun _ _ => And.right) fun _ _ => And.right
  refine ⟨fun moment hmem => ?_, hends⟩
  rcases List.mem_append.1 hmem with hmem | hmem
  · exact h.guaranteed moment hmem
  · exact List.mem_singleton.1 hmem ▸ hmoment

theorem peek {post : Option Token.Kind → Reading → Prop}
    (h : post (cells.ahead.head?.map Token.kind) cells) :
    Ensures guarantee peek cells post blame :=
  .bind (.getCells (.pure h))

theorem advance {post : Option Token → Reading → Prop}
    (hnone : cells.ahead = [] → post none cells)
    (hsome : ∀ token more, cells.ahead = token :: more →
      guarantee ⟨.changed, { cells with ahead := more }⟩ ∧
        post (some token) { cells with ahead := more }) :
    Ensures guarantee advance cells post blame := by
  refine .bind (.getCells ?_)
  cases hahead : cells.ahead with
  | nil => exact .pure (hnone hahead)
  | cons token more =>
      obtain ⟨hmoment, hpost⟩ := hsome token more hahead
      exact .bind (.change hmoment (.pure hpost))

end Ensures

end Calculator.Parse
