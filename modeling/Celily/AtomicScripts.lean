import Mathlib.Data.List.Basic

/-!
# Scripts of atomic commands

A script issues commands to a shared state one at a time and goes on with their
replies; a command is one step. `attempt` runs a script alone while some of its
commands fail without an effect. `Interleaved` runs two of them, a command of either
at a time, and `interleave` does so in a given order. A run beside a bound script
splits where the first part is done.
-/

namespace AtomicScripts

/-- Commands `C` with replies in `R`, and a result in `α`. -/
inductive Script (C R α : Type) where
  | done (result : α)
  | run (command : C) (next : R → Script C R α)

inductive Party where
  | left
  | right
  deriving DecidableEq

variable {C R S α β γ ε : Type}

namespace Script

def bind : Script C R α → (α → Script C R β) → Script C R β
  | .done result, k => k result
  | .run command next, k => .run command (fun reply => bind (next reply) k)

/-- Go on after a success, return an error. -/
def andThen (script : Script C R (Except ε α)) (k : α → Script C R (Except ε β)) :
    Script C R (Except ε β) :=
  script.bind (fun result =>
    match result with
    | .error error => .done (.error error)
    | .ok a => k a)

/-- Every command that the script can issue is one of these. -/
def Only (allowed : C → Prop) : Script C R α → Prop
  | .done _ => True
  | .run command next => allowed command ∧ ∀ reply, Only allowed (next reply)

end Script

section Runs
variable (execute : C → S → R × S)

/-- The script alone. The command at a position of `faults` that is `true` does nothing
and has the reply `failed`. -/
def attempt (failed : R) : List Bool → Script C R α → S → α × S
  | _, .done result, s => (result, s)
  | [], .run command next, s =>
    attempt failed [] (next (execute command s).1) (execute command s).2
  | true :: faults, .run _ next, s => attempt failed faults (next failed) s
  | false :: faults, .run command next, s =>
    attempt failed faults (next (execute command s).1) (execute command s).2

/-- Two scripts to their ends, the commands in the order in which they ran. -/
inductive Interleaved : Script C R α → Script C R β → S → List (Party × C) → α → β → S → Prop where
  | done (a : α) (b : β) (s : S) : Interleaved (.done a) (.done b) s [] a b s
  | left {command : C} {next : R → Script C R α} {other : Script C R β} {s final : S}
      {trace : List (Party × C)} {a : α} {b : β} :
      Interleaved (next (execute command s).1) other (execute command s).2 trace a b final →
      Interleaved (.run command next) other s ((.left, command) :: trace) a b final
  | right {command : C} {other : Script C R α} {next : R → Script C R β} {s final : S}
      {trace : List (Party × C)} {a : α} {b : β} :
      Interleaved other (next (execute command s).1) (execute command s).2 trace a b final →
      Interleaved other (.run command next) s ((.right, command) :: trace) a b final

/-- The run in which the sides take their turns in this order, if they all have one. -/
def interleave : List Party → Script C R α → Script C R β → S →
    Option (List (Party × C) × α × β × S)
  | [], .done a, .done b, s => some ([], a, b, s)
  | .left :: turns, .run command next, other, s =>
    (interleave turns (next (execute command s).1) other (execute command s).2).map
      (fun (trace, rest) => ((.left, command) :: trace, rest))
  | .right :: turns, other, .run command next, s =>
    (interleave turns other (next (execute command s).1) (execute command s).2).map
      (fun (trace, rest) => ((.right, command) :: trace, rest))
  | _, _, _, _ => none

end Runs

variable {execute : C → S → R × S} {failed : R}

@[simp] theorem attempt_done (faults : List Bool) (result : α) (s : S) :
    attempt execute failed faults (.done result : Script C R α) s = (result, s) := by
  cases faults with
  | nil => rfl
  | cons fault faults => cases fault <;> rfl

theorem attempt_run (faults : List Bool) (command : C) (next : R → Script C R α) (s : S) :
    attempt execute failed faults (.run command next) s =
      if faults.headD false = true then attempt execute failed faults.tail (next failed) s
      else attempt execute failed faults.tail (next (execute command s).1)
        (execute command s).2 := by
  cases faults with
  | nil => rfl
  | cons fault faults =>
    cases fault with
    | false => rfl
    | true => rfl

/-- What the right side is done with is its result. -/
theorem Interleaved.right_result {script : Script C R α} {result b : β} {s final : S}
    {trace : List (Party × C)} {a : α}
    (hrun : Interleaved execute script (.done result) s trace a b final) : b = result := by
  induction script generalizing s trace with
  | done other =>
    cases hrun
    rfl
  | run command next ih =>
    cases hrun with
    | left hrest => exact ih _ hrest

/-- The left side may run before, between and after the steps of the first part. -/
theorem Interleaved.bind_right {allowed issued : C → Prop} {left : Script C R α}
    {script : Script C R β} {k : β → Script C R γ} {s final : S} {trace : List (Party × C)}
    {a : α} {c : γ} (hrun : Interleaved execute left (script.bind k) s trace a c final)
    (hleft : left.Only allowed) (hscript : script.Only issued) :
    ∃ before after left' result s', trace = before ++ after ∧
      (∀ command, (Party.right, command) ∈ before → issued command) ∧
      left'.Only allowed ∧ Interleaved execute left' (k result) s' after a c final := by
  generalize hright : script.bind k = right at hrun
  induction hrun generalizing script with
  | done a b s =>
    cases script with
    | done result =>
      refine ⟨[], [], _, result, s, rfl, by simp, hleft, ?_⟩
      rw [show k result = .done b from hright]
      exact .done a b s
    | run command next => cases hright
  | left hrest ih =>
    obtain ⟨before, after, left', result, s', rfl, hissued, hleft', hrest⟩ :=
      ih (hleft.2 _) hscript hright
    refine ⟨_ :: before, after, left', result, s', rfl, ?_, hleft', hrest⟩
    intro command hmem
    rcases List.mem_cons.mp hmem with hhead | hmem
    · cases hhead
    · exact hissued command hmem
  | @right command other next s final trace a b hrest ih =>
    cases script with
    | done result =>
      refine ⟨[], (.right, command) :: trace, _, result, s, rfl, by simp, hleft, ?_⟩
      rw [show k result = .run command next from hright]
      exact .right hrest
    | run first onward =>
      obtain ⟨rfl, hnext⟩ := Script.run.inj hright
      obtain ⟨before, after, left', result, s', rfl, hissued, hleft', hrest⟩ :=
        ih hleft (hscript.2 _) (congrFun hnext _)
      refine ⟨_ :: before, after, left', result, s', rfl, ?_, hleft', hrest⟩
      intro other hmem
      rcases List.mem_cons.mp hmem with hhead | hmem
      · cases hhead
        exact hscript.1
      · exact hissued other hmem

theorem Interleaved.of_interleave {turns : List Party} {left : Script C R α}
    {right : Script C R β} {s final : S} {trace : List (Party × C)} {a : α} {b : β}
    (hsome : interleave execute turns left right s = some (trace, a, b, final)) :
    Interleaved execute left right s trace a b final := by
  fun_induction interleave execute turns left right s generalizing trace with
  | case1 =>
    cases hsome
    exact .done a b final
  | case2 turns command next other s ih =>
    obtain ⟨⟨trace', rest⟩, hrest, heq⟩ := Option.map_eq_some_iff.mp hsome
    cases heq
    exact .left (ih hrest)
  | case3 turns other command next s ih =>
    obtain ⟨⟨trace', rest⟩, hrest, heq⟩ := Option.map_eq_some_iff.mp hsome
    cases heq
    exact .right (ih hrest)
  | case4 => cases hsome

/-- A run in a given order whose result and end pass a test. -/
theorem Interleaved.exists_of_interleave (execute : C → S → R × S) (left : Script C R α)
    (right : Script C R β) (s : S) (turns : List Party)
    (test : List (Party × C) → α → β → S → Bool)
    (hpasses : (interleave execute turns left right s).any
      (fun (trace, a, b, final) => test trace a b final) = true) :
    ∃ trace a b final, Interleaved execute left right s trace a b final ∧
      test trace a b final = true := by
  obtain ⟨⟨trace, a, b, final⟩, hsome, htest⟩ := (Option.any_eq_true _ _).mp hpasses
  exact ⟨trace, a, b, final, .of_interleave hsome, htest⟩

end AtomicScripts
