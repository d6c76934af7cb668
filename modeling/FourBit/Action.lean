import FourBit.Event

/-! Operations on a state that record events and may fail.
A failed operation leaves the state as far as it had come, and everything recorded until then. -/
namespace FourBit

structure Outcome (σ α : Type) where
  answer : Except Error α
  state : σ
  events : List Event

theorem Outcome.exists_events {σ α : Type} {outcome : Outcome σ α} {answer : Except Error α}
    {state : σ} (ha : outcome.answer = answer) (hs : outcome.state = state) :
    ∃ events, outcome = ⟨answer, state, events⟩ :=
  ⟨outcome.events, by rw [← ha, ← hs]⟩

/-- An operation on states of type `σ`. -/
def Action (σ α : Type) := σ → Outcome σ α

namespace Action
variable {σ α β : Type}

def run (x : Action σ α) (s : σ) : Outcome σ α := x s

instance : Monad (Action σ) where
  pure a := fun s => ⟨.ok a, s, []⟩
  bind x f := fun s =>
    match x s with
    | ⟨.ok a, s', events⟩ =>
      let rest := f a s'
      ⟨rest.answer, rest.state, events ++ rest.events⟩
    | ⟨.error e, s', events⟩ => ⟨.error e, s', events⟩

instance : MonadStateOf σ (Action σ) where
  get := fun s => ⟨.ok s, s, []⟩
  set s := fun _ => ⟨.ok (), s, []⟩
  modifyGet f := fun s => ⟨.ok (f s).1, (f s).2, []⟩

instance : MonadExceptOf Error (Action σ) where
  throw e := fun s => ⟨.error e, s, []⟩
  tryCatch x handle := fun s =>
    match x s with
    | ⟨.ok a, s', events⟩ => ⟨.ok a, s', events⟩
    | ⟨.error e, s', events⟩ =>
      let rest := handle e s'
      ⟨rest.answer, rest.state, events ++ rest.events⟩

def record (e : Event) : Action σ Unit := fun s => ⟨.ok (), s, [e]⟩

def ofResult (x : Except Error α) : Action σ α := fun s => ⟨x, s, []⟩

@[simp] theorem pure_run (a : α) (s : σ) : (pure a : Action σ α) s = ⟨.ok a, s, []⟩ := rfl

@[simp] theorem get_run (s : σ) : (get : Action σ σ) s = ⟨.ok s, s, []⟩ := rfl

@[simp] theorem modify_run (f : σ → σ) (s : σ) :
    (modify f : Action σ Unit) s = ⟨.ok (), f s, []⟩ := rfl

@[simp] theorem throw_run (e : Error) (s : σ) :
    (throw e : Action σ α) s = ⟨.error e, s, []⟩ := rfl

@[simp] theorem record_run (e : Event) (s : σ) : record e s = ⟨.ok (), s, [e]⟩ := rfl

@[simp] theorem ofResult_run (x : Except Error α) (s : σ) :
    (ofResult x : Action σ α) s = ⟨x, s, []⟩ := rfl

@[simp] theorem bind_run (x : Action σ α) (f : α → Action σ β) (s : σ) :
    (x >>= f) s =
      match x s with
      | ⟨.ok a, s', events⟩ =>
        ⟨(f a s').answer, (f a s').state, events ++ (f a s').events⟩
      | ⟨.error e, s', events⟩ => ⟨.error e, s', events⟩ := rfl

@[simp] theorem discard_run (x : Action σ α) (s : σ) :
    (discard x : Action σ Unit) s = ⟨(x s).answer.map fun _ => (), (x s).state, (x s).events⟩ := by
  change (x >>= fun _ => pure ()) s = _
  rw [bind_run]
  cases h : x s with
  | mk answer state events => cases answer <;> simp [Except.map]

end Action
end FourBit
