import Mathlib.Data.List.Nodup
import Mathlib.Data.List.Perm.Basic

/-!
# Directory trees

A directory is the list of its entries in the order in which they are read, and an
entry is a file or a directory again. What a path of names leads to is
`Directory.find`, and `Directory.paths` are the paths of all files. Where no name is
repeated in a directory (`Directory.Valid`), each file has one path, and every path is
listed once (`mem_paths`, `nodup_paths`).
-/

set_option autoImplicit false

namespace DirectoryTree

variable {N C : Type}

/-- The entries of a directory, with names in `N` and file contents in `C`. -/
inductive Directory (N C : Type) where
  | empty
  | file (name : N) (content : C) (rest : Directory N C)
  | dir (name : N) (inside rest : Directory N C)
  deriving DecidableEq

/-- What a path leads to. -/
inductive Node (N C : Type) where
  | file (content : C)
  | dir (entries : Directory N C)
  deriving DecidableEq

namespace Directory

def names : Directory N C → List N
  | empty => []
  | file name _ rest | dir name _ rest => name :: names rest

/-- The paths of the files. -/
def paths : Directory N C → List (List N)
  | empty => []
  | file name _ rest => [name] :: paths rest
  | dir name inside rest => (paths inside).map (name :: ·) ++ paths rest

/-- All names are as they should be, and no directory has one twice. -/
def Valid (ok : N → Prop) : Directory N C → Prop
  | empty => True
  | file name _ rest => ok name ∧ name ∉ rest.names ∧ Valid ok rest
  | dir name inside rest => ok name ∧ name ∉ rest.names ∧ Valid ok inside ∧ Valid ok rest

instance instDecidableValid [DecidableEq N] {ok : N → Prop} [DecidablePred ok] :
    (d : Directory N C) → Decidable (d.Valid ok)
  | empty => .isTrue trivial
  | file name _ rest =>
      have : Decidable (rest.Valid ok) := instDecidableValid rest
      inferInstanceAs (Decidable (ok name ∧ name ∉ rest.names ∧ rest.Valid ok))
  | dir name inside rest =>
      have : Decidable (inside.Valid ok) := instDecidableValid inside
      have : Decidable (rest.Valid ok) := instDecidableValid rest
      inferInstanceAs (Decidable (ok name ∧ name ∉ rest.names ∧ inside.Valid ok ∧ rest.Valid ok))

/-- A path of a file starts with an entry. -/
theorem head_mem_names {d : Directory N C} {path : List N} (member : path ∈ d.paths) :
    ∃ name rest, path = name :: rest ∧ name ∈ d.names := by
  induction d with
  | empty => cases member
  | file here content rest ih =>
      rcases List.mem_cons.mp member with rfl | later
      · exact ⟨here, [], rfl, List.mem_cons_self⟩
      · obtain ⟨name, more, rfl, inside⟩ := ih later
        exact ⟨name, more, rfl, List.mem_cons_of_mem _ inside⟩
  | dir here inside rest _ ih =>
      rcases List.mem_append.mp member with below | later
      · obtain ⟨more, -, rfl⟩ := List.mem_map.mp below
        exact ⟨here, more, rfl, List.mem_cons_self⟩
      · obtain ⟨name, more, rfl, inside⟩ := ih later
        exact ⟨name, more, rfl, List.mem_cons_of_mem _ inside⟩

/-- No path is listed twice. -/
theorem nodup_paths {ok : N → Prop} {d : Directory N C} (valid : d.Valid ok) : d.paths.Nodup := by
  induction d with
  | empty => exact List.nodup_nil
  | file here content rest ih =>
      obtain ⟨-, absent, later⟩ := valid
      refine List.nodup_cons.mpr ⟨fun member => ?_, ih later⟩
      obtain ⟨name, more, same, inside⟩ := head_mem_names member
      cases same
      exact absent inside
  | dir here inside rest below ih =>
      obtain ⟨-, absent, valid', later⟩ := valid
      refine List.Nodup.append ((below valid').map (List.cons_injective)) (ih later) ?_
      intro path front back
      obtain ⟨more, -, rfl⟩ := List.mem_map.mp front
      obtain ⟨name, more', same, inside⟩ := head_mem_names back
      cases same
      exact absent inside

variable [DecidableEq N]

/-- The entry with a name. -/
def child (name : N) : Directory N C → Option (Node N C)
  | empty => none
  | file here content rest => if here = name then some (.file content) else child name rest
  | dir here inside rest => if here = name then some (.dir inside) else child name rest

/-- What a path leads to. -/
def find : List N → Directory N C → Option (Node N C)
  | [], d => some (.dir d)
  | name :: rest, d =>
      match d.child name with
      | none => none
      | some (.file content) => if rest.isEmpty then some (.file content) else none
      | some (.dir inside) => inside.find rest

theorem find_singleton (name : N) (d : Directory N C) : d.find [name] = d.child name := by
  unfold find
  cases d.child name with
  | none => rfl
  | some node => cases node <;> rfl

/-- Behind a directory the path goes on in it. -/
theorem find_append {front : List N} {d entries : Directory N C}
    (leads : d.find front = some (.dir entries)) (back : List N) :
    d.find (front ++ back) = entries.find back := by
  induction front generalizing d with
  | nil =>
      rw [find, Option.some.injEq, Node.dir.injEq] at leads
      rw [leads, List.nil_append]
  | cons name rest ih =>
      rw [find] at leads
      rw [List.cons_append, find]
      cases entry : d.child name with
      | none =>
          rw [entry] at leads
          cases leads
      | some node =>
          rw [entry] at leads
          cases node with
          | file content =>
              simp only at leads
              split at leads <;> cases leads
          | dir inside => exact ih leads

theorem child_eq_none {name : N} {d : Directory N C} (absent : name ∉ d.names) :
    d.child name = none := by
  induction d with
  | empty => rfl
  | file here content rest ih =>
      rw [names, List.mem_cons, not_or] at absent
      rw [child, if_neg (Ne.symm absent.1), ih absent.2]
  | dir here inside rest _ ih =>
      rw [names, List.mem_cons, not_or] at absent
      rw [child, if_neg (Ne.symm absent.1), ih absent.2]

theorem Valid.child {ok : N → Prop} {d : Directory N C} (valid : d.Valid ok) {name : N}
    {node : Node N C} (entry : d.child name = some node) :
    ok name ∧ ∀ inside, node = .dir inside → inside.Valid ok := by
  induction d with
  | empty => cases entry
  | file here content rest ih =>
      obtain ⟨good, -, later⟩ := valid
      rw [Directory.child] at entry
      split at entry
      · rename_i same
        cases entry
        exact ⟨same ▸ good, nofun⟩
      · exact ih later entry
  | dir here inside rest _ ih =>
      obtain ⟨good, -, below, later⟩ := valid
      rw [Directory.child] at entry
      split at entry
      · rename_i same
        cases entry
        refine ⟨same ▸ good, fun inside' same' => ?_⟩
        cases same'
        exact below
      · exact ih later entry

/-- The names of a path that leads somewhere are as they should be, and so is the
directory it leads to. -/
theorem Valid.find {ok : N → Prop} {d : Directory N C} (valid : d.Valid ok) {path : List N}
    {node : Node N C} (leads : d.find path = some node) :
    (∀ name ∈ path, ok name) ∧ ∀ entries, node = .dir entries → entries.Valid ok := by
  induction path generalizing d with
  | nil =>
      cases leads
      refine ⟨nofun, fun entries same => ?_⟩
      cases same
      exact valid
  | cons name rest ih =>
      unfold Directory.find at leads
      cases entry : d.child name with
      | none =>
          rw [entry] at leads
          cases leads
      | some inner =>
          rw [entry] at leads
          obtain ⟨good, below⟩ := valid.child entry
          have first : ∀ {names : List N}, (∀ other ∈ names, ok other) →
              ∀ other ∈ name :: names, ok other := fun all other member =>
            (List.mem_cons.mp member).elim (fun same => same ▸ good) (all other)
          cases inner with
          | file content =>
              simp only [List.isEmpty_iff] at leads
              split at leads
              · rename_i ends
                subst ends
                cases leads
                exact ⟨first nofun, nofun⟩
              · cases leads
          | dir inside =>
              obtain ⟨names, entries⟩ := ih (below inside rfl) leads
              exact ⟨first names, entries⟩

/-- Where a path leads depends on the entry with its first name. -/
theorem find_cons_congr {name : N} {d d' : Directory N C} (same : d.child name = d'.child name)
    (rest : List N) : d.find (name :: rest) = d'.find (name :: rest) := by
  rw [find, find, same]

/-- A path is listed when it leads to a file. -/
theorem mem_paths {ok : N → Prop} {d : Directory N C} (valid : d.Valid ok) {path : List N} :
    path ∈ d.paths ↔ ∃ content, d.find path = some (.file content) := by
  have notRoot : ∀ d : Directory N C, [] ∈ d.paths ↔
      ∃ content, d.find [] = some (.file content) := fun d => by
    refine iff_of_false (fun member => ?_) (by rintro ⟨content, leads⟩; cases leads)
    obtain ⟨name, rest, same, -⟩ := head_mem_names member
    cases same
  induction d generalizing path with
  | empty =>
      cases path with
      | nil => exact notRoot _
      | cons name more =>
          refine iff_of_false List.not_mem_nil ?_
          rintro ⟨content, leads⟩
          cases leads
  | file here content rest ih =>
      obtain ⟨-, absent, later⟩ := valid
      cases path with
      | nil => exact notRoot _
      | cons name more =>
          rw [paths, List.mem_cons]
          by_cases same : here = name
          · subst same
            have outside : here :: more ∉ rest.paths := fun member => by
              obtain ⟨name, more', same, inside⟩ := head_mem_names member
              cases same
              exact absent inside
            rw [or_iff_left outside, find, child, if_pos rfl, List.cons_eq_cons,
              and_iff_right rfl]
            cases more with
            | nil => exact iff_of_true rfl ⟨content, rfl⟩
            | cons next more => exact iff_of_false nofun (by rintro ⟨_, leads⟩; cases leads)
          · have other : ¬ name :: more = [here] := fun equal =>
              same (List.cons_eq_cons.mp equal).1.symm
            have entry : (file here content rest).child name = rest.child name := if_neg same
            rw [or_iff_right other, find_cons_congr entry]
            exact ih later
  | dir here inside rest below ih =>
      obtain ⟨-, absent, valid', later⟩ := valid
      cases path with
      | nil => exact notRoot _
      | cons name more =>
          rw [paths, List.mem_append, List.mem_map]
          by_cases same : here = name
          · subst same
            have outside : here :: more ∉ rest.paths := fun member => by
              obtain ⟨name, more', same, inside⟩ := head_mem_names member
              cases same
              exact absent inside
            rw [or_iff_left outside, find, child, if_pos rfl]
            refine Iff.trans ?_ (below valid')
            constructor
            · rintro ⟨path, member, same⟩
              exact (List.cons.inj same).2 ▸ member
            · exact fun member => ⟨more, member, rfl⟩
          · have other : ¬ ∃ path ∈ inside.paths, here :: path = name :: more := by
              rintro ⟨path, -, equal⟩
              exact same (List.cons.inj equal).1
            have entry : (dir here inside rest).child name = rest.child name := if_neg same
            rw [or_iff_right other, find_cons_congr entry]
            exact ih later

end Directory

end DirectoryTree
