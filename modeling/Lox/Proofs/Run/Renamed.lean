import Lox.Proofs.Run.Fuel
import Lox.Proofs.Run.Made
import Mathlib.Logic.Equiv.Basic

/-!
# Programs with other names

A program can tell names apart, and a function shows the name it was declared with.  Nothing else
about a name can be told: where different names are exchanged for different ones, and functions keep
theirs, a program runs as before, up to the name of a variable that is not defined.
-/

namespace Lox

/-! ## Likeness -/

/-- All names in the statement are among the given ones, and the renaming keeps those that it
declares functions with. -/
def Stmt.Renames (f : Symbol → Symbol) (names : Set Symbol) (s : Stmt) : Prop :=
  (∀ x ∈ s.symbols, x ∈ names) ∧ s.Within {d | f d.name = d.name}

section

variable {f : Symbol → Symbol} {names : Set Symbol}

/-- What is renamed in a statement is renamed in its parts. -/
theorem Stmt.Renames.part {s part : Stmt} (h : s.Renames f names) (hpart : part ∈ s.parts) :
    part.Renames f names :=
  ⟨fun x hx => h.1 x (Stmt.symbols_part_subset hpart hx), h.2.part hpart⟩

/-- The second run has other names for those of the first one. -/
def Translation.renamed (hf : f.Injective) (names : Set Symbol) : Translation where
  symbol x x' := x ∈ names ∧ x' = f x
  line := Eq
  expr e e' := (∀ x ∈ e.symbols, x ∈ names) ∧ e' = e.rename f id
  stmt s s' := s.Renames f names ∧ s' = s.rename f id
  body ss ss' := (∀ s ∈ ss, s.Renames f names) ∧ ss' = ss.map (Stmt.rename f id)
  symbol_iff := by
    rintro x _ y _ ⟨-, rfl⟩ ⟨-, rfl⟩
    exact hf.eq_iff.symm
  expr_cases := by
    rintro e _ ⟨he, rfl⟩
    refine .rename (fun x hx => ⟨he x hx, rfl⟩) (fun _ => rfl) fun part hpart => ?_
    exact ⟨fun x hx => he x (hpart hx), rfl⟩
  stmt_cases := by
    rintro s _ ⟨hs, rfl⟩
    refine .rename (fun x hx => ⟨hs.1 x hx, rfl⟩) ?_ (fun part hpart => ?_)
      (fun part hpart => ?_) ?_
    · rintro name params ss rfl
      have hfixed : f name = name := hs.2 ⟨name, params, ss⟩ .refl
      rw [hfixed]
    · exact ⟨fun x hx => hs.1 x (hpart hx), rfl⟩
    · exact ⟨hs.part hpart, rfl⟩
    · rintro name params ss rfl
      exact ⟨fun s hs' => hs.part hs', rfl⟩
  body_cases := by
    rintro ss _ ⟨hss, rfl⟩
    refine List.forall₂_map_right_iff.mpr (List.forall₂_same.mpr fun s hs => ?_)
    exact ⟨hss s hs, rfl⟩

end

/-! ## Runs -/

/-- The second failure is the first one after a renaming, which shows only in the name of a variable
that is not defined. -/
inductive Failure.Renamed (f : Symbol → Symbol) (names : Set Symbol) : Failure → Failure → Prop
  | undefinedVariable {line : Position} {x : Symbol} :
      x ∈ names → Renamed f names (.fault line (.undefinedVariable x.name))
        (.fault line (.undefinedVariable (f x).name))
  | fault {line : Position} {e : Fault} :
      e.Nameless → Renamed f names (.fault line e) (.fault line e)
  | outputRefused : Renamed f names .outputRefused .outputRefused

/-- The second run of a program ends as the first one does, up to a renaming, and has written the
same. -/
inductive Outcome.Renamed (f : Symbol → Symbol) (names : Set Symbol) :
    Outcome Unit → Outcome Unit → Prop
  | done {s s' : State} :
      s.output = s'.output → s.readings = s'.readings → Renamed f names (.done () s) (.done () s')
  | failed {e e' : Failure} {s s' : State} :
      e.Renamed f names e' → s.output = s'.output → s.readings = s'.readings →
      Renamed f names (.failed e s) (.failed e' s')

section

variable {f : Symbol → Symbol} {names : Set Symbol} {hf : f.Injective}

/-- Runs fail alike, except that a fault mentions a name by its new spelling. -/
theorem Failure.Like.renamed {e e' : Failure}
    (h : e.Like (Translation.renamed hf names).everywhere e') : e.Renamed f names e' := by
  cases h with
  | outputRefused => exact .outputRefused
  | fault hl he =>
      cases hl
      cases he with
      | same he => exact .fault he
      | undefinedVariable hx =>
          obtain ⟨hx, rfl⟩ := hx
          exact .undefinedVariable hx

end

/-- Names stand for nothing but themselves.  If a renaming takes different names to different ones
and keeps the names of the clock and of all functions that the program declares, then the program
and the renamed one run out of fuel together.  With enough fuel for each, both write the same and
end in the same way, and a variable that is not defined is told by its new name. -/
theorem run_of_rename (clock : Nat → Number) (clockName : Symbol) (room : Option Nat)
    (program : List Stmt) (f : Symbol → Symbol) (hf : f.Injective)
    (hclock : f clockName = clockName)
    (hfunctions : ∀ s ∈ program, ∀ d : Declaration, d.stmt.Occurs s → f d.name = d.name) :
    let start := State.initial clockName room
    let renamed := program.map (Stmt.rename f id)
    (∀ n, run clock n program start = .outOfFuel ↔ run clock n renamed start = .outOfFuel) ∧
    ∀ n n', run clock n program start ≠ .outOfFuel → run clock n' renamed start ≠ .outOfFuel →
      (run clock n program start).Renamed f {x | ∃ s ∈ program, x ∈ s.symbols}
        (run clock n' renamed start) := by
  intro start renamed
  let names : Set Symbol := {x | ∃ s ∈ program, x ∈ s.symbols}
  let L := (Translation.renamed hf names).everywhere
  have hprogram : L.body program renamed :=
    ⟨fun s hs => ⟨fun x hx => ⟨s, hs, hx⟩, fun d hd => hfunctions s hs d hd⟩, rfl⟩
  have hstart : start.Like L .empty start := by
    refine State.like_initial_everywhere ?_ rfl room
    rintro y _ ⟨-, rfl⟩
    rw [← hf.eq_iff, hclock]
  have hlike (n : Nat) : (run clock n program start).Like L .empty start.store.frames.size
      (fun _ _ _ => True) (run clock n renamed start) := by
    refine (like_execAll n (L.body_cases hprogram) trivial hstart).bind ?_
    exact fun _ _ _ _ _ hs _ => Action.like_pure trivial hs
  refine ⟨fun n => (hlike n).eq_outOfFuel_iff, fun n n' hn hn' => ?_⟩
  have h := hlike (max n n')
  rw [(run_le (Nat.le_max_left n n')).eq hn, (run_le (Nat.le_max_right n n')).eq hn'] at h
  generalize run clock n program start = o, run clock n' renamed start = o' at h hn
  cases h with
  | outOfFuel => exact absurd rfl hn
  | done _ hs _ => exact .done hs.output_eq hs.readings_eq
  | failed he hs _ => exact .failed he.renamed hs.output_eq hs.readings_eq

/-- The program `fun f(a, a) { var b = a; { var a = b; print a; } return c; } f(true, nil);`, with a
return on its third line. -/
def shadowing (f a b c : Symbol) : List Stmt :=
  [.function f [a, a] [.var b (some (.var a 1)),
      .block [.var a (some (.var b 2)), .print (.var a 2)], .return_ (some (.var c 3))],
    .expr (.call (.var f 4) [.literal (.bool true), .literal .nil] 4)]

/-- Two names change places, one of which is that of two parameters, and the one that is not defined
is exchanged for one that the program does not have. -/
theorem run_of_rename_shadowing :
    let clockName : Symbol := ⟨17, "clock"⟩
    let f : Symbol := ⟨18, "f"⟩
    let a : Symbol := ⟨19, "a"⟩
    let b : Symbol := ⟨20, "b"⟩
    let c : Symbol := ⟨21, "c"⟩
    let d : Symbol := ⟨22, "d"⟩
    let exchange : Symbol → Symbol := Equiv.swap a b ∘ Equiv.swap c d
    let start := State.initial clockName none
    let ended (program : List Stmt) := run (fun _ => ⟨0⟩) 20 program start
    exchange.Injective ∧ exchange clockName = clockName ∧
      (∀ s ∈ shadowing f a b c, ∀ d : Declaration, d.stmt.Occurs s → exchange d.name = d.name) ∧
      (shadowing f a b c).map (Stmt.rename exchange id) = shadowing f b a d ∧
      ended (shadowing f a b c) ≠ .outOfFuel ∧ ended (shadowing f b a d) ≠ .outOfFuel ∧
      (ended (shadowing f a b c)).Renamed exchange {x | ∃ s ∈ shadowing f a b c, x ∈ s.symbols}
        (ended (shadowing f b a d)) := by
  intro clockName f a b c d exchange start ended
  have hexchange : exchange.Injective := (Equiv.injective _).comp (Equiv.injective _)
  have hclock : exchange clockName = clockName := by decide +kernel
  have hfunctions (s : Stmt) (hs : s ∈ shadowing f a b c) (d : Declaration)
      (hd : d.stmt.Occurs s) : exchange d.name = d.name := by
    have hleaf {s : Stmt} (hs : s.parts = []) (hd : d.stmt.Occurs s) : d.stmt = s := by
      simpa [hs] using Stmt.occurs_iff.mp hd
    have hname : d.name = f := by
      rcases List.mem_pair.mp hs with rfl | rfl
      · rcases Stmt.occurs_iff.mp hd with hd | ⟨part, hpart, hd⟩
        · exact (Stmt.function.inj hd).1
        simp only [Stmt.parts, List.mem_cons, List.not_mem_nil, or_false] at hpart
        rcases hpart with rfl | rfl | rfl
        · cases hleaf rfl hd
        · rcases Stmt.occurs_iff.mp hd with hd | ⟨part, hpart, hd⟩
          · cases hd
          · rcases List.mem_pair.mp hpart with rfl | rfl <;> cases hleaf rfl hd
        · cases hleaf rfl hd
      · cases hleaf rfl hd
    rw [hname]
    decide +kernel
  have hrenamed : (shadowing f a b c).map (Stmt.rename exchange id) = shadowing f b a d := by
    simp [shadowing, Stmt.rename, Expr.rename, show exchange f = f by decide +kernel,
      show exchange a = b by decide +kernel, show exchange b = a by decide +kernel,
      show exchange c = d by decide +kernel]
  have hfirst : ended (shadowing f a b c) ≠ .outOfFuel := by decide +kernel
  have hsecond : ended (shadowing f b a d) ≠ .outOfFuel := by decide +kernel
  have h := (run_of_rename (fun _ => ⟨0⟩) clockName none (shadowing f a b c) exchange hexchange
    hclock hfunctions).2 20 20 hfirst
  rw [hrenamed] at h
  exact ⟨hexchange, hclock, hfunctions, hrenamed, hfirst, hsecond, h hsecond⟩

end Lox
