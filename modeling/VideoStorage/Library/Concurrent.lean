import Mathlib.Tactic.Common

/-!
# Processes over a shared state

A concurrent state is a shared part and a list of processes, each with a local
state. One process acts at a time: from the shared part and its own state it
gives a new shared part and a new state of its own (`act`), and the other
processes stay where they are.

Adding up a quantity over the processes turns an invariant about all of them into
arithmetic: an action changes the total by the two parts of the one process that
acted (`total_set_add`), and the number of processes in a phase is such a total
(`countP_set_add`).
-/

set_option autoImplicit false

/-- A shared state and the local states of the processes. -/
structure Concurrent (G P : Type) where
  shared : G
  processes : List P

namespace Concurrent

variable {G P A : Type}

/-- Process `i` takes a local step. -/
def act (localStep : G → P → A → Option (G × P)) (s : Concurrent G P) (i : Nat) (action : A) :
    Option (Concurrent G P) := do
  let process ← s.processes[i]?
  let (shared, process) ← localStep s.shared process action
  some ⟨shared, s.processes.set i process⟩

/-- A new process arrives. -/
def spawn (s : Concurrent G P) (process : P) : Concurrent G P :=
  { s with processes := s.processes ++ [process] }

theorem act_eq_some {localStep : G → P → A → Option (G × P)} {s t : Concurrent G P} {i : Nat}
    {action : A} (acted : s.act localStep i action = some t) :
    ∃ process next shared, s.processes[i]? = some process ∧
      localStep s.shared process action = some (shared, next) ∧
      t = ⟨shared, s.processes.set i next⟩ := by
  obtain ⟨process, found, rest⟩ := Option.bind_eq_some_iff.mp acted
  obtain ⟨⟨shared, next⟩, moved, here⟩ := Option.bind_eq_some_iff.mp rest
  cases here
  exact ⟨process, next, shared, found, moved, rfl⟩

theorem act_of_step {localStep : G → P → A → Option (G × P)} {s : Concurrent G P} {i : Nat}
    {action : A} {process next : P} {shared : G} (found : s.processes[i]? = some process)
    (moved : localStep s.shared process action = some (shared, next)) :
    s.act localStep i action = some ⟨shared, s.processes.set i next⟩ := by
  rw [act, found, Option.bind_eq_bind, Option.bind_some, moved]
  rfl

/-- A property of all processes survives a step that keeps it for the process
that acts. -/
theorem forall_set {p : P → Prop} {processes : List P} {i : Nat} {next : P}
    (all : ∀ process ∈ processes, p process) (new : p next) :
    ∀ process ∈ processes.set i next, p process := by
  intro process member
  rcases List.mem_or_eq_of_mem_set member with old | rfl
  · exact all process old
  · exact new

theorem forall_spawn {p : P → Prop} {processes : List P} {next : P}
    (all : ∀ process ∈ processes, p process) (new : p next) :
    ∀ process ∈ processes ++ [next], p process := by
  intro process member
  rcases List.mem_append.mp member with old | here
  · exact all process old
  · exact List.mem_singleton.mp here ▸ new

/-- The other processes stay, and the process that acted is there in its new
state. -/
theorem mem_set_or_eq {processes : List P} {i : Nat} {process other : P}
    (found : processes[i]? = some process) (next : P) (member : other ∈ processes) :
    other ∈ processes.set i next ∨ other = process := by
  obtain ⟨j, there⟩ := List.mem_iff_getElem?.mp member
  by_cases same : i = j
  · subst same
    exact .inr (Option.some.inj (there.symm.trans found))
  · exact .inl (List.mem_of_getElem? ((List.getElem?_set_ne same).trans there))

theorem mem_set_self {processes : List P} {i : Nat} {process : P}
    (found : processes[i]? = some process) (next : P) : next ∈ processes.set i next :=
  List.mem_set (List.getElem?_eq_some_iff.mp found).1 _

/-- A property of every process and its number, which may depend on the number,
survives a step that keeps it for the process that acts. -/
theorem forall_at_set {p : Nat → P → Prop} {processes : List P} {i : Nat} {next : P}
    (all : ∀ k process, processes[k]? = some process → p k process) (new : p i next) :
    ∀ k process, (processes.set i next)[k]? = some process → p k process := by
  intro k process there
  by_cases same : i = k
  · subst same
    rw [List.getElem?_set_self'] at there
    obtain ⟨_, _, rfl⟩ := Option.map_eq_some_iff.mp there
    exact new
  · rw [List.getElem?_set_ne same] at there
    exact all k process there

theorem forall_at_spawn {p : Nat → P → Prop} {processes : List P} {next : P}
    (all : ∀ k process, processes[k]? = some process → p k process)
    (new : p processes.length next) :
    ∀ k process, (processes ++ [next])[k]? = some process → p k process := by
  intro k process there
  rcases Nat.lt_trichotomy k processes.length with less | rfl | more
  · rw [List.getElem?_append_left less] at there
    exact all k process there
  · rw [List.getElem?_concat_length] at there
    exact Option.some.inj there ▸ new
  · rw [List.getElem?_eq_none (by rw [List.length_append]; exact more)] at there
    cases there

/-- A process that has a property has it after a step that keeps the property. -/
theorem exists_at_set {p : P → Prop} {processes : List P} {i : Nat} {process next : P}
    (found : processes[i]? = some process) (kept : p process → p next) {k : Nat}
    (here : ∃ other, processes[k]? = some other ∧ p other) :
    ∃ other, (processes.set i next)[k]? = some other ∧ p other := by
  obtain ⟨other, there, has⟩ := here
  by_cases same : i = k
  · subst same
    obtain rfl := Option.some.inj (found.symm.trans there)
    exact ⟨next, List.getElem?_set_self (List.getElem?_eq_some_iff.mp found).1, kept has⟩
  · exact ⟨other, (List.getElem?_set_ne same).trans there, has⟩

theorem exists_at_spawn {p : P → Prop} {processes : List P} {k : Nat} (next : P)
    (here : ∃ other, processes[k]? = some other ∧ p other) :
    ∃ other, (processes ++ [next])[k]? = some other ∧ p other := by
  obtain ⟨other, there, has⟩ := here
  have less := (List.getElem?_eq_some_iff.mp there).1
  exact ⟨other, (List.getElem?_append_left less).trans there, has⟩

/-- A quantity added up over the processes. -/
def total (f : P → Nat) : List P → Nat
  | [] => 0
  | process :: rest => f process + total f rest

/-- A step of one process changes a total by its own two parts. -/
theorem total_set_add {f : P → Nat} {processes : List P} {i : Nat} {process : P}
    (found : processes[i]? = some process) (next : P) :
    total f (processes.set i next) + f process = total f processes + f next := by
  induction processes generalizing i with
  | nil => cases found
  | cons first rest ih =>
      cases i with
      | zero =>
          cases found
          simp only [List.set_cons_zero, total]
          omega
      | succ i =>
          have tail := ih (i := i) (by simpa using found)
          simp only [List.set_cons_succ, total]
          omega

theorem total_spawn (f : P → Nat) (processes : List P) (next : P) :
    total f (processes ++ [next]) = total f processes + f next := by
  induction processes with
  | nil => rw [List.nil_append, total, total, total, Nat.add_comm]
  | cons first rest ih => rw [List.cons_append, total, total, ih, Nat.add_assoc]

theorem total_append (f : P → Nat) (left right : List P) :
    total f (left ++ right) = total f left + total f right := by
  induction left with
  | nil => rw [List.nil_append, total, Nat.zero_add]
  | cons first rest ih => rw [List.cons_append, total, total, ih, Nat.add_assoc]

theorem total_eq_zero {f : P → Nat} {processes : List P}
    (none : ∀ process ∈ processes, f process = 0) : total f processes = 0 := by
  induction processes with
  | nil => rfl
  | cons first rest ih =>
      rw [total, none first (List.mem_cons_self ..),
        ih fun process member => none process (List.mem_cons_of_mem _ member)]

theorem le_total_of_mem (f : P → Nat) {process : P} {processes : List P}
    (member : process ∈ processes) : f process ≤ total f processes := by
  obtain ⟨before, after, rfl⟩ := List.append_of_mem member
  rw [total_append, total]
  omega

theorem total_le_total {f g : P → Nat} (le : ∀ process, f process ≤ g process)
    (processes : List P) : total f processes ≤ total g processes := by
  induction processes with
  | nil => exact Nat.le_refl _
  | cons first rest ih => exact Nat.add_le_add (le first) ih

theorem countP_eq_total (p : P → Bool) (processes : List P) :
    processes.countP p = total (fun process => (p process).toNat) processes := by
  induction processes with
  | nil => rfl
  | cons first rest ih =>
      rw [List.countP_cons, ih, total, Nat.add_comm]
      cases p first <;> rfl

/-- A step of one process changes a count by its two phases. -/
theorem countP_set_add {p : P → Bool} {processes : List P} {i : Nat} {process : P}
    (found : processes[i]? = some process) (next : P) :
    (processes.set i next).countP p + (p process).toNat =
      processes.countP p + (p next).toNat := by
  simp only [countP_eq_total]
  exact total_set_add found next

theorem countP_spawn (p : P → Bool) (processes : List P) (next : P) :
    (processes ++ [next]).countP p = processes.countP p + (p next).toNat := by
  simp only [countP_eq_total]
  exact total_spawn _ processes next

/-- Processes of one kind are at most those of the kinds that cover it. -/
theorem countP_le_add {p q r : P → Bool} {processes : List P}
    (covered : ∀ process ∈ processes, p process = true → q process = true ∨ r process = true) :
    processes.countP p ≤ processes.countP q + processes.countP r := by
  induction processes with
  | nil => exact Nat.zero_le _
  | cons process rest ih =>
      have tail := ih fun other member => covered other (List.mem_cons_of_mem _ member)
      have here := covered process (List.mem_cons_self ..)
      simp only [List.countP_cons]
      cases kind : p process with
      | false => simp only [Bool.false_eq_true, if_false]; omega
      | true =>
          rcases here kind with kind' | kind' <;> simp only [kind', if_true] <;> omega

end Concurrent
