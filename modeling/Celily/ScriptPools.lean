import Celily.AtomicScripts
import Mathlib.Logic.Function.Basic

/-!
# Pools of scripts

Any number of scripts beside each other on one state, a command of any of them at a
time. A command may fail without an effect where that is allowed for it, and a party
that is killed is one that has no further turn: a run ends anywhere. What each turn
keeps holds at the end of every run, and commands that each keep a property keep it in
any order.
-/

namespace ScriptPools

open AtomicScripts

variable {ι C R S α β ε : Type} [DecidableEq ι]

/-- What each party still has to do. -/
abbrev Pool (ι C R α : Type) := ι → Script C R α

/-- Any number of turns, of any parties. -/
inductive Turns (execute : C → S → R × S) (failed : R) (mayFail : C → Prop) :
    Pool ι C R α → S → Pool ι C R α → S → Prop where
  | stop (pool : Pool ι C R α) (s : S) : Turns execute failed mayFail pool s pool s
  | turn {pool pool' : Pool ι C R α} {s s' : S} (i : ι) {command : C} {next : R → Script C R α}
      (hnext : pool i = .run command next) :
      Turns execute failed mayFail (Function.update pool i (next (execute command s).1))
        (execute command s).2 pool' s' →
      Turns execute failed mayFail pool s pool' s'
  | fault {pool pool' : Pool ι C R α} {s s' : S} (i : ι) {command : C} {next : R → Script C R α}
      (hnext : pool i = .run command next) (hfails : mayFail command) :
      Turns execute failed mayFail (Function.update pool i (next failed)) s pool' s' →
      Turns execute failed mayFail pool s pool' s'

/-- The turns in this order, those of parties that are done left out. -/
def takeTurns (execute : C → S → R × S) : List ι → Pool ι C R α → S → Pool ι C R α × S
  | [], pool, s => (pool, s)
  | i :: turns, pool, s =>
    match pool i with
    | .done _ => takeTurns execute turns pool s
    | .run command next => takeTurns execute turns
      (Function.update pool i (next (execute command s).1)) (execute command s).2

def finished : Script C R α → Option α
  | .done result => some result
  | .run _ _ => none

variable {execute : C → S → R × S} {failed : R} {mayFail : C → Prop}
  {pool pool' : Pool ι C R α} {s s' : S}

theorem done_of_finished {script : Script C R α} {result : α}
    (hfinished : finished script = some result) : script = .done result := by
  cases script with
  | done other => rw [Option.some.inj hfinished]
  | run command next => cases hfinished

theorem turns_takeTurns (execute : C → S → R × S) (failed : R) (mayFail : C → Prop)
    (turns : List ι) (pool : Pool ι C R α) (s : S) :
    Turns execute failed mayFail pool s (takeTurns execute turns pool s).1
      (takeTurns execute turns pool s).2 := by
  fun_induction takeTurns execute turns pool s with
  | case1 pool s => exact .stop pool s
  | case2 i turns pool s result hdone ih => exact ih
  | case3 i turns pool s command next hnext ih => exact .turn i hnext ih

/-- What every turn keeps. -/
theorem Turns.keeps (Inv : Pool ι C R α → S → Prop)
    (hturns : Turns execute failed mayFail pool s pool' s')
    (hturn : ∀ pool s i command next, Inv pool s → pool i = .run command next →
      Inv (Function.update pool i (next (execute command s).1)) (execute command s).2)
    (hfault : ∀ pool s i command next, Inv pool s → pool i = .run command next →
      mayFail command → Inv (Function.update pool i (next failed)) s)
    (hstart : Inv pool s) : Inv pool' s' := by
  induction hturns with
  | stop pool s => exact hstart
  | turn i hnext _ ih => exact ih (hturn _ _ i _ _ hstart hnext)
  | fault i hnext hfails _ ih => exact ih (hfault _ _ i _ _ hstart hnext hfails)

/-- A property of the state beside one of each party alone. -/
theorem Turns.keeps_each (Good : S → Prop) (Phase : ι → Script C R α → Prop)
    (hturns : Turns execute failed mayFail pool s pool' s')
    (hturn : ∀ i command next s, Good s → Phase i (.run command next) →
      Good (execute command s).2 ∧ Phase i (next (execute command s).1))
    (hfault : ∀ i command next, mayFail command → Phase i (.run command next) →
      Phase i (next failed))
    (hgood : Good s) (hphase : ∀ i, Phase i (pool i)) :
    Good s' ∧ ∀ i, Phase i (pool' i) := by
  refine hturns.keeps (fun pool s => Good s ∧ ∀ i, Phase i (pool i)) ?_ ?_ ⟨hgood, hphase⟩
  · rintro pool s i command next ⟨hgood, hphase⟩ hnext
    have hparty := hphase i
    rw [hnext] at hparty
    obtain ⟨hgood, hparty⟩ := hturn i command next s hgood hparty
    exact ⟨hgood, Function.forall_update_iff pool (fun j script => Phase j script) |>.mpr
      ⟨hparty, fun j _ => hphase j⟩⟩
  · rintro pool s i command next ⟨hgood, hphase⟩ hnext hfails
    have hparty := hphase i
    rw [hnext] at hparty
    exact ⟨hgood, Function.forall_update_iff pool (fun j script => Phase j script) |>.mpr
      ⟨hfault i command next hfails hparty, fun j _ => hphase j⟩⟩

/-- Commands that each keep a property keep it in any order, with any of them failing. -/
theorem Turns.keeps_only (Good : S → Prop) (allowed : C → Prop)
    (hturns : Turns execute failed mayFail pool s pool' s')
    (hkeeps : ∀ command s, allowed command → Good s → Good (execute command s).2)
    (hgood : Good s) (honly : ∀ i, (pool i).Only allowed) : Good s' := by
  refine (hturns.keeps_each Good (fun _ script => script.Only allowed) ?_ ?_ hgood honly).1
  · rintro i command next s hgood ⟨hallowed, hnext⟩
    exact ⟨hkeeps command s hallowed hgood, hnext _⟩
  · rintro i command next _ ⟨_, hnext⟩
    exact hnext failed

/-! ## The commands of a script -/

theorem only_mono {allowed allowed' : C → Prop} (hmono : ∀ command, allowed command →
    allowed' command) {script : Script C R α} (honly : script.Only allowed) :
    script.Only allowed' := by
  induction script with
  | done result => trivial
  | run command next ih => exact ⟨hmono command honly.1, fun reply => ih reply (honly.2 reply)⟩

theorem only_bind {allowed : C → Prop} {script : Script C R α} {k : α → Script C R β}
    (hscript : script.Only allowed) (hk : ∀ result, (k result).Only allowed) :
    (script.bind k).Only allowed := by
  induction script with
  | done result => exact hk result
  | run command next ih => exact ⟨hscript.1, fun reply => ih reply (hscript.2 reply)⟩

theorem only_andThen {allowed : C → Prop} {script : Script C R (Except ε α)}
    {k : α → Script C R (Except ε β)} (hscript : script.Only allowed)
    (hk : ∀ result, (k result).Only allowed) : (script.andThen k).Only allowed := by
  refine only_bind hscript fun result => ?_
  cases result with
  | error error => trivial
  | ok a => exact hk a

end ScriptPools
