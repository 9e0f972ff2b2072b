import VideoStorage.Library.Str

/-!
# Paths of a Unix file system

A path is a string. Joining an absolute path replaces the base; joining a
relative one appends it, with a separator when the base does not end with one.
The components of a path are the root (for an absolute path) and the names
between the separators. Empty names and `.` are dropped, save for a leading
`.`; `..` is kept, because resolving it needs the file system.

A path is a strict descendant of a directory when its components are those of
the directory followed by at least one more, none of which climbs. Joining a
relative path appends components (`components_join`), so it leads to a strict
descendant exactly when the appended ones are some and none climbs
(`strictDescendant_iff`).
-/

set_option autoImplicit false

namespace RustStd

open Str

/-- One component of a path. -/
inductive Component where
  | rootDir
  | curDir
  | parentDir
  | normal (name : Str)
  deriving DecidableEq, Repr

namespace Path

/-- An absolute path starts with the separator. -/
def isAbsolute (path : Str) : Bool := path.head? == some '/'

/-- Join a path onto a base. -/
def join (base path : Str) : Str :=
  if isAbsolute path then path
  else if base.getLast?.any (fun c => c != '/') then base ++ '/' :: path
  else base ++ path

/-- The component a name stands for: empty names and `.` stand for none. -/
def component (name : Str) : Option Component :=
  if name = [] ∨ name = ['.'] then none
  else if name = ['.', '.'] then some .parentDir
  else some (.normal name)

/-- The names of a path as components. -/
def names (path : Str) : List Component := (split '/' path).filterMap component

/-- The components of a path. -/
def components (path : Str) : List Component :=
  if isAbsolute path then .rootDir :: names path
  else if upTo '/' path = ['.'] then .curDir :: names path
  else names path

/-- The components of the path are those of the directory and at least one
more below it, none of which climbs. -/
def StrictDescendant (path directory : Str) : Prop :=
  ∃ below, below ≠ [] ∧ .parentDir ∉ below ∧ components path = components directory ++ below

/-! ## Joining -/

theorem isAbsolute_cons (c : Char) (rest : Str) : isAbsolute (c :: rest) = (c == '/') := rfl

theorem join_absolute {base path : Str} (absolute : isAbsolute path = true) :
    join base path = path :=
  if_pos absolute

theorem join_relative {base path : Str} (relative : isAbsolute path = false) :
    join base path =
      if base.getLast?.any (fun c => c != '/') then base ++ '/' :: path else base ++ path :=
  if_neg (by simp [relative])

/-- Different relative paths stay different below a base. -/
theorem join_inj {base path path' : Str} (relative : isAbsolute path = false)
    (relative' : isAbsolute path' = false) : join base path = join base path' ↔ path = path' := by
  rw [join_relative relative, join_relative relative']
  split
  · rw [List.append_cancel_left_eq, List.cons_inj_right]
  · rw [List.append_cancel_left_eq]

theorem join_ne_nil {base path : Str} (nonempty : base ≠ []) : join base path ≠ [] := by
  rw [join]
  split
  · rename_i absolute
    rintro rfl
    cases absolute
  · split <;> simp [nonempty]

/-- The names of two paths with a separator between them. -/
theorem names_append_separator (front back : Str) :
    names (front ++ '/' :: back) = names front ++ names back := by
  simp only [names, split, List.splitOn_append_cons_self, List.filterMap_append]

@[simp] theorem names_nil : names [] = [] := rfl

/-- Separators name nothing. -/
theorem names_of_separators {path : Str} (separators : path.all (fun c => c == '/') = true) :
    names path = [] := by
  induction path with
  | nil => rfl
  | cons c rest ih =>
      simp only [List.all_cons, Bool.and_eq_true, beq_iff_eq] at separators
      rw [separators.1]
      exact (names_append_separator [] rest).trans (ih separators.2)

/-- A path that names nothing is made of separators and dots. -/
theorem eq_dot_of_names_eq_nil {path : Str} (none : names path = []) {c : Char} (member : c ∈ path)
    (other : c ≠ '/') : c = '.' := by
  obtain ⟨piece, inside, here⟩ := exists_mem_split member other
  have dropped := List.filterMap_eq_nil_iff.mp none piece inside
  unfold component at dropped
  split at dropped
  · rename_i small
    rcases small with rfl | rfl
    · cases here
    · simpa using here
  · split at dropped <;> cases dropped

/-- Joining a relative path appends its names. -/
theorem names_join {base path : Str} (relative : isAbsolute path = false)
    (nonempty : base ≠ []) : names (join base path) = names base ++ names path := by
  rw [join_relative relative]
  obtain ⟨init, last, rfl⟩ := (List.eq_nil_or_concat' base).resolve_left nonempty
  by_cases slash : last = '/'
  · subst slash
    simp only [List.getLast?_append, List.getLast?_singleton, Option.some_or, Option.any_some,
      bne_self_eq_false, Bool.false_eq_true, if_false, List.append_assoc, List.singleton_append,
      names_append_separator, names_nil, List.append_nil]
  · have noSlash : (init ++ [last]).getLast?.any (fun c => c != '/') = true := by simp [slash]
    rw [if_pos noSlash, names_append_separator]

/-- A name before a separator starts the path with itself. -/
theorem upTo_append_of_mem {front back : Str} (member : '/' ∈ front) :
    upTo '/' (front ++ back) = upTo '/' front := by
  obtain ⟨init, rest, rfl, absent⟩ : ∃ init rest, front = init ++ '/' :: rest ∧ '/' ∉ init := by
    cases found : splitOnce '/' front with
    | none => exact absurd member (splitOnce_eq_none.mp found)
    | some pieces => exact ⟨_, _, splitOnce_eq_some.mp found⟩
  rw [List.append_assoc, List.cons_append, upTo_append absent, upTo_append absent]

/-- Joining a relative path below a nonempty base appends components. -/
theorem components_join {base path : Str} (relative : isAbsolute path = false)
    (nonempty : base ≠ []) : components (join base path) = components base ++ names path := by
  have sameHead : isAbsolute (join base path) = isAbsolute base := by
    rw [join_relative relative]
    cases base with
    | nil => exact absurd rfl nonempty
    | cons c rest => split <;> rfl
  have sameStart : upTo '/' (join base path) = upTo '/' base := by
    rw [join_relative relative]
    by_cases member : '/' ∈ base
    · split
      · exact upTo_append_of_mem member
      · exact upTo_append_of_mem member
    · have noSlash : base.getLast?.any (fun c => c != '/') = true := by
        rw [List.getLast?_eq_getLast_of_ne_nil nonempty, Option.any_some, bne_iff_ne]
        exact fun same => member (same ▸ List.getLast_mem nonempty)
      rw [if_pos noSlash, upTo_append member, upTo_of_notMem member]
  simp only [components, sameHead, sameStart, names_join relative nonempty]
  split
  · rfl
  · split <;> rfl

/-- A path whose components are those of the directory and some more is a
strict descendant exactly when there is one more and none that climbs. -/
theorem strictDescendant_iff {path directory : Str} {below : List Component}
    (equal : components path = components directory ++ below) :
    StrictDescendant path directory ↔ below ≠ [] ∧ .parentDir ∉ below := by
  constructor
  · rintro ⟨below', some, noClimb, equal'⟩
    rw [List.append_cancel_left (equal.symm.trans equal')]
    exact ⟨some, noClimb⟩
  · rintro ⟨some, noClimb⟩
    exact ⟨below, some, noClimb, equal⟩

/-- A path with no more components than the directory is not below it. -/
theorem not_strictDescendant_of_length {path directory : Str}
    (short : (components path).length ≤ (components directory).length) :
    ¬ StrictDescendant path directory := by
  rintro ⟨below, some, -, equal⟩
  have size := congrArg List.length equal
  rw [List.length_append] at size
  have positive := List.length_pos_iff.mpr some
  omega

/-- Joining a name below a directory whose name ends without a separator. -/
theorem join_join {base first name : Str} {last : Char} (relative : isAbsolute first = false)
    (ends : first.getLast? = some last) (notSlash : last ≠ '/') (relative' : isAbsolute name = false) :
    join (join base first) name = join base (first ++ '/' :: name) := by
  have relative'' : isAbsolute (first ++ '/' :: name) = false := by
    cases first with
    | nil => cases ends
    | cons c rest => exact relative
  have joined : (join base first).getLast?.any (fun c => c != '/') = true := by
    have ends' : (join base first).getLast? = some last := by
      rw [join_relative relative]
      split
      · rw [List.getLast?_append, List.getLast?_cons, ends]
        rfl
      · rw [List.getLast?_append, ends]
        rfl
    rw [ends', Option.any_some]
    exact bne_iff_ne.mpr notSlash
  rw [join_relative relative', if_pos joined, join_relative relative, join_relative relative'']
  split
  · rw [List.append_assoc, List.cons_append]
  · rw [List.append_assoc]

/-! ## Below a base -/

/-- The pieces behind the first `n` that name something. -/
def dropNames : Nat → List Str → List Str
  | 0, pieces => pieces
  | _ + 1, [] => []
  | n + 1, piece :: rest =>
      if (component piece).isNone then dropNames (n + 1) rest else dropNames n rest

/-- The pieces from the first one that names something. -/
def trimFront (pieces : List Str) : List Str := pieces.dropWhile fun piece => (component piece).isNone

/-- The pieces up to the last one that names something. -/
def trimBack (pieces : List Str) : List Str := (trimFront pieces.reverse).reverse

/-- The path from its root or its first segment on, without what names nothing at
its end. -/
def trimEnd (path : Str) : Str :=
  if isAbsolute path then '/' :: ['/'].intercalate (trimBack (split '/' path.tail))
  else
    match split '/' path with
    | [] => []
    | first :: rest => ['/'].intercalate (first :: trimBack rest)

/-- `Path::strip_prefix`: the part of a path below a base whose components it
starts with. -/
def stripPrefix (path base : Str) : Option Str :=
  if (components base).isPrefixOf (components path) then
    if components base = [] then some (trimEnd path)
    else
      let below := dropNames (names base).length (split '/' path)
      some (['/'].intercalate (trimBack (trimFront below)))
  else none

theorem components_ne_nil {path : Str} (nonempty : path ≠ []) : components path ≠ [] := by
  unfold components
  split
  · nofun
  · split
    · nofun
    · rename_i relative notDot
      intro none
      obtain ⟨first, rest, pieces⟩ := List.exists_cons_of_ne_nil (List.splitOn_ne_nil '/' path)
      have head := split_headD '/' path
      rw [split, pieces, List.headD_cons] at head
      -- The first piece of a path that names nothing is empty or a dot.
      have unnamed : component first = Option.none :=
        List.filterMap_eq_nil_iff.mp none first (by rw [split, pieces]; exact List.mem_cons_self ..)
      unfold component at unnamed
      split at unnamed
      · rename_i small
        rcases small with rfl | rfl
        · cases path with
          | nil => exact nonempty rfl
          | cons c more =>
              have other : c ≠ '/' := by simpa [isAbsolute_cons] using relative
              rw [upTo, List.takeWhile_cons_of_pos (by simpa using other)] at head
              cases head
        · exact notDot head.symm
      · split at unnamed <;> cases unnamed

theorem dropNames_zero (pieces : List Str) : dropNames 0 pieces = pieces := by
  cases pieces <;> rfl

/-- Behind the names of a front stands the back. -/
theorem trimFront_dropNames (front back : List Str) :
    trimFront (dropNames (front.filterMap component).length (front ++ back)) = trimFront back := by
  induction front with
  | nil => exact congrArg trimFront (dropNames_zero back)
  | cons piece rest ih =>
      cases named : component piece with
      | none =>
          rw [List.filterMap_cons_none named]
          have skipped : (component piece).isNone = true := by rw [named]; rfl
          cases count : (rest.filterMap component).length with
          | zero =>
              rw [count, dropNames_zero] at ih
              rw [dropNames_zero, List.cons_append, trimFront, List.dropWhile_cons, if_pos skipped]
              exact ih
          | succ n =>
              rw [count] at ih
              rw [List.cons_append, dropNames, if_pos skipped, ih]
      | some name =>
          have kept : (component piece).isNone = false := by rw [named]; rfl
          rw [List.filterMap_cons_some named, List.length_cons, List.cons_append, dropNames,
            if_neg (by rw [kept]; nofun), ih]

/-- The pieces of a joined path are those of the base and those of the path. -/
theorem split_join {base path : Str} (relative : isAbsolute path = false) (nonempty : base ≠ []) :
    ∃ front, split '/' (join base path) = front ++ split '/' path ∧
      front.filterMap component = names base := by
  rw [join_relative relative]
  obtain ⟨init, last, rfl⟩ := (List.eq_nil_or_concat' base).resolve_left nonempty
  by_cases slash : last = '/'
  · subst slash
    refine ⟨split '/' init, ?_, ?_⟩
    · rw [if_neg (by simp), List.append_assoc, List.singleton_append]
      exact List.splitOn_append_cons_self ..
    · rw [names_append_separator, names_nil, List.append_nil, names]
  · refine ⟨split '/' (init ++ [last]), ?_, rfl⟩
    rw [if_pos (by simp [slash])]
    exact List.splitOn_append_cons_self ..

/-- Every piece of a path names something. -/
def AllNamed (path : Str) : Prop := ∀ piece ∈ split '/' path, (component piece).isNone = false

theorem trimFront_of_named {pieces : List Str}
    (named : ∀ piece ∈ pieces, (component piece).isNone = false) : trimFront pieces = pieces := by
  cases pieces with
  | nil => rfl
  | cons piece rest =>
      rw [trimFront, List.dropWhile_cons_of_neg]
      rw [named piece (List.mem_cons_self ..)]
      nofun

/-- A relative path joined onto a base is found below it. -/
theorem stripPrefix_join {base path : Str} (relative : isAbsolute path = false)
    (nonempty : base ≠ []) (named : AllNamed path) :
    stripPrefix (join base path) base = some path := by
  obtain ⟨front, pieces, here⟩ := split_join relative nonempty
  have starts : (components base).isPrefixOf (components (join base path)) = true := by
    rw [List.isPrefixOf_iff_prefix, components_join relative nonempty]
    exact List.prefix_append ..
  have below : trimFront (dropNames (names base).length (split '/' (join base path))) =
      split '/' path := by
    rw [pieces, ← here, trimFront_dropNames, trimFront_of_named named]
  have whole : trimBack (split '/' path) = split '/' path := by
    rw [trimBack, trimFront_of_named fun piece member => named piece (List.mem_reverse.mp member),
      List.reverse_reverse]
  rw [stripPrefix, if_pos starts, if_neg (components_ne_nil nonempty)]
  simp only [below, whole]
  exact congrArg some (List.intercalate_splitOn '/')

/-! ## Repeated separators -/

/-- A path with every run of separators collapsed to one. -/
def collapseSeparators : Str → Str
  | [] => []
  | c :: rest =>
      if c = '/' ∧ rest.head? = some '/' then collapseSeparators rest
      else c :: collapseSeparators rest

theorem collapseSeparators_append {front : Str} (absent : '/' ∉ front) (back : Str) :
    collapseSeparators (front ++ back) = front ++ collapseSeparators back := by
  induction front with
  | nil => rfl
  | cons c rest ih =>
      simp only [List.mem_cons, not_or] at absent
      rw [List.cons_append, collapseSeparators, if_neg fun doubled => absent.1 doubled.1.symm,
        ih absent.2, List.cons_append]

/-- Collapsing keeps the first separator. -/
theorem collapseSeparators_separator (rest : Str) :
    ∃ more, collapseSeparators ('/' :: rest) = '/' :: more := by
  induction rest with
  | nil => exact ⟨[], rfl⟩
  | cons c rest ih =>
      by_cases same : c = '/'
      · subst same
        obtain ⟨more, equal⟩ := ih
        exact ⟨more, by rw [collapseSeparators, if_pos ⟨rfl, rfl⟩, equal]⟩
      · refine ⟨collapseSeparators (c :: rest), ?_⟩
        rw [collapseSeparators, if_neg fun doubled => same (by simpa using doubled.2)]

/-- Collapsing keeps what stands before the first separator. -/
theorem splitOnce_collapseSeparators {path first : Str} :
    (∃ rest, splitOnce '/' (collapseSeparators path) = some (first, rest)) ↔
      ∃ rest, splitOnce '/' path = some (first, rest) := by
  cases found : splitOnce '/' path with
  | none =>
      have absent := splitOnce_eq_none.mp found
      have same : collapseSeparators path = path := by
        simpa [collapseSeparators] using collapseSeparators_append absent []
      rw [same, found]
  | some pieces =>
      obtain ⟨front, back⟩ := pieces
      obtain ⟨rfl, absent⟩ := splitOnce_eq_some.mp found
      obtain ⟨more, equal⟩ := collapseSeparators_separator back
      rw [collapseSeparators_append absent, equal, splitOnce_append absent]
      simp

end Path

end RustStd
