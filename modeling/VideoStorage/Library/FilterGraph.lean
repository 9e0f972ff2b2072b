import Mathlib.Data.List.Nodup
import Mathlib.Data.List.Pairwise
import VideoStorage.Library.Str

/-!
# Filter graphs

A filter graph is described by a text: filters, separated by semicolons, each with the
labels of its inputs in brackets, its name, its arguments and the labels of its outputs.
A label links an output of a filter to an input of another filter or to an output of the
program; a label with a colon names a stream of an input file. Chains, quotes and blanks
are left out: a description with any of them is not read.

**The round trip.** The description of a graph is read back as the graph
(`parse_print`).

**The wiring rule.** When the labels that are consumed are those that are produced, one
by one, and no label is produced twice, every link has exactly one end of each kind
(`WellWired.of_same`). Then the filters that a link has gone through are those of the
one filter that produces it (`through_iff`).
-/

set_option autoImplicit false

namespace FilterGraph

open RustStd Str

structure Filter where
  inputs : List Str
  name : Str
  args : Str
  outputs : List Str
  deriving DecidableEq, Repr

/-! ## The description -/

/-- A label in brackets. -/
def pad (label : Str) : Str := '[' :: label ++ [']']

def Filter.print (f : Filter) : Str :=
  f.inputs.flatMap pad ++ (f.name ++ '=' :: f.args ++ f.outputs.flatMap pad)

/-- The description of a graph. -/
def print (filters : List Filter) : Str := [';'].intercalate (filters.map Filter.print)

/-- Read labels in brackets, as many as there are: their labels and the text after them.
Within brackets, the label so far is given. -/
def readPads : Option Str → Str → Option (List Str × Str)
  | none, '[' :: rest => readPads (some []) rest
  | none, text => some ([], text)
  | some _, [] => none
  | some label, ']' :: rest => (readPads none rest).map fun read => (label :: read.1, read.2)
  | some label, c :: rest => readPads (some (label ++ [c])) rest

def parseFilter (text : Str) : Option Filter := do
  let (inputs, text) ← readPads none text
  let (name, text) ← splitOnce '=' text
  let (outputs, rest) ← readPads none (text.dropWhile fun c => c != '[')
  if rest.isEmpty then some ⟨inputs, name, upTo '[' text, outputs⟩ else none

/-- What no description that is read has: the separator of a chain, quotes and blanks. -/
def unsupported (c : Char) : Bool := c ∈ ",'\\ \n\t\r".toList

def parse (text : Str) : Option (List Filter) :=
  if text.any unsupported then none else (split ';' text).mapM parseFilter

/-! ## The round trip -/

/-- A character without a meaning in a description. -/
def plainChar (c : Char) : Bool := !"[]=;".toList.contains c && !unsupported c

abbrev Plain (text : Str) : Prop := text.all plainChar = true

structure Filter.Plain (f : Filter) : Prop where
  inputs : ∀ label ∈ f.inputs, FilterGraph.Plain label
  name : FilterGraph.Plain f.name
  args : FilterGraph.Plain f.args
  outputs : ∀ label ∈ f.outputs, FilterGraph.Plain label

theorem Plain.notMem {text : Str} (plain : Plain text) {c : Char} (meaning : plainChar c = false) :
    c ∉ text := by
  intro member
  rw [List.all_eq_true.mp plain c member] at meaning
  cases meaning

theorem Plain.append {text text' : Str} (plain : Plain text) (plain' : Plain text') :
    Plain (text ++ text') := by
  rw [Plain, List.all_append, plain, plain']
  rfl

theorem plain_of_allDigits {text : Str} (digits : allDigits text = true) : Plain text := by
  refine List.all_eq_true.mpr fun c member => ?_
  have digit := List.all_eq_true.mp digits c member
  have other : ∀ meaning : Char, meaning.isDigit = false → c ≠ meaning := by
    rintro meaning noDigit rfl
    rw [noDigit] at digit
    cases digit
  simp [plainChar, unsupported, other '[' rfl, other ']' rfl, other '=' rfl, other ';' rfl,
    other ',' rfl, other '\'' rfl, other '\\' rfl, other ' ' rfl, other '\n' rfl, other '\t' rfl,
    other '\r' rfl]

theorem readPads_close (label rest : Str) :
    readPads (some label) (']' :: rest) =
      (readPads none rest).map fun read => (label :: read.1, read.2) := rfl

theorem readPads_char {c : Char} (other : c ≠ ']') (label rest : Str) :
    readPads (some label) (c :: rest) = readPads (some (label ++ [c])) rest := by
  rw [readPads]
  exact other

/-- Without a bracket there are no labels to read. -/
theorem readPads_stop {text : Str} (stop : text.head? ≠ some '[') :
    readPads none text = some ([], text) := by
  cases text with
  | nil => rfl
  | cons c rest =>
      rw [readPads]
      exact fun _ same => stop (congrArg List.head? same)

theorem readPads_within (label : Str) {tail : Str} (absent : ']' ∉ tail) (rest : Str) :
    readPads (some label) (tail ++ ']' :: rest) =
      (readPads none rest).map fun read => ((label ++ tail) :: read.1, read.2) := by
  induction tail generalizing label with
  | nil => rw [List.nil_append, List.append_nil, readPads_close]
  | cons c tail ih =>
      rw [List.mem_cons, not_or] at absent
      rw [List.cons_append, readPads_char (Ne.symm absent.1), ih _ absent.2, List.append_assoc,
        List.singleton_append]

/-- Labels in brackets are read up to where they stop. -/
theorem readPads_append {labels : List Str} (plain : ∀ label ∈ labels, Plain label) {rest : Str}
    (stop : rest.head? ≠ some '[') :
    readPads none (labels.flatMap pad ++ rest) = some (labels, rest) := by
  induction labels with
  | nil => exact readPads_stop stop
  | cons label labels ih =>
      obtain ⟨first, others⟩ := List.forall_mem_cons.mp plain
      have text : (label :: labels).flatMap pad ++ rest =
          '[' :: (label ++ ']' :: (labels.flatMap pad ++ rest)) := by simp [pad]
      have opened : readPads none ('[' :: (label ++ ']' :: (labels.flatMap pad ++ rest))) =
          readPads (some []) (label ++ ']' :: (labels.flatMap pad ++ rest)) := rfl
      rw [text, opened, readPads_within [] (first.notMem (by decide)), ih others]
      rfl

/-- Labels in brackets begin with a bracket. -/
theorem pads_eq (labels : List Str) :
    labels.flatMap pad = [] ∨ ∃ more, labels.flatMap pad = '[' :: more := by
  cases labels with
  | nil => exact .inl rfl
  | cons label labels => exact .inr ⟨_, rfl⟩

theorem parseFilter_print {f : Filter} (plain : f.Plain) : parseFilter f.print = some f := by
  obtain ⟨inputs, name, args, outputs⟩ := f
  have first : (name ++ '=' :: args ++ outputs.flatMap pad).head? ≠ some '[' := by
    have absent : '[' ∉ name := plain.name.notMem (by decide)
    cases name with
    | nil => simp
    | cons c more =>
        rw [List.mem_cons, not_or] at absent
        simpa using Ne.symm absent.1
  have noBracket : '[' ∉ args := plain.args.notMem (by decide)
  have upTo_args : upTo '[' (args ++ outputs.flatMap pad) = args := by
    rcases pads_eq outputs with none | ⟨more, some⟩
    · rw [none, List.append_nil, upTo_of_notMem noBracket]
    · rw [some, upTo_append noBracket]
  have after : (args ++ outputs.flatMap pad).dropWhile (fun c => c != '[') =
      outputs.flatMap pad := by
    have whole := List.takeWhile_append_dropWhile (p := fun c => c != '[')
      (l := args ++ outputs.flatMap pad)
    rw [show (args ++ outputs.flatMap pad).takeWhile _ = args from upTo_args] at whole
    exact List.append_cancel_left whole
  have read : readPads none (outputs.flatMap pad) = some (outputs, []) := by
    have last := readPads_append plain.outputs (show ([] : Str).head? ≠ some '[' by simp)
    rwa [List.append_nil] at last
  rw [Filter.print, parseFilter, readPads_append plain.inputs first]
  simp only [Option.bind_eq_bind, Option.bind_some, List.append_assoc, List.cons_append,
    splitOnce_append (plain.name.notMem (c := '=') (by decide)), after, read, upTo_args,
    List.isEmpty_nil, if_true]

/-- A character of a description is a bracket, the sign before the arguments, or plain. -/
theorem Filter.Plain.mem_print {f : Filter} (plain : f.Plain) {c : Char} (member : c ∈ f.print) :
    (c = '[' ∨ c = ']' ∨ c = '=') ∨ plainChar c = true := by
  have pads : ∀ labels : List Str, (∀ label ∈ labels, FilterGraph.Plain label) →
      c ∈ labels.flatMap pad → (c = '[' ∨ c = ']' ∨ c = '=') ∨ plainChar c = true := by
    intro labels all here
    obtain ⟨label, inside, here⟩ := List.mem_flatMap.mp here
    rcases List.mem_append.mp here with before | last
    · rcases List.mem_cons.mp before with first | within
      · exact .inl (.inl first)
      · exact .inr (List.all_eq_true.mp (all label inside) c within)
    · exact .inl (.inr (.inl (List.mem_singleton.mp last)))
  rcases List.mem_append.mp member with input | rest
  · exact pads f.inputs plain.inputs input
  · rcases List.mem_append.mp rest with body | output
    · rcases List.mem_append.mp body with name | args
      · exact .inr (List.all_eq_true.mp plain.name c name)
      · rcases List.mem_cons.mp args with sign | args
        · exact .inl (.inr (.inr sign))
        · exact .inr (List.all_eq_true.mp plain.args c args)
    · exact pads f.outputs plain.outputs output

theorem Filter.Plain.supported {f : Filter} (plain : f.Plain) {c : Char} (member : c ∈ f.print) :
    c ≠ ';' ∧ unsupported c = false := by
  rcases plain.mem_print member with (rfl | rfl | rfl) | free
  · exact ⟨by decide, rfl⟩
  · exact ⟨by decide, rfl⟩
  · exact ⟨by decide, rfl⟩
  · refine ⟨fun semicolon => ?_, ?_⟩
    · rw [semicolon] at free
      cases free
    · simpa using (Bool.and_eq_true_iff.mp free).2

/-- **The description of a graph is read back** as the graph. -/
theorem parse_print {filters : List Filter} (nonempty : filters ≠ [])
    (plain : ∀ f ∈ filters, f.Plain) : parse (print filters) = some filters := by
  have pieces : split ';' (print filters) = filters.map Filter.print := by
    refine List.splitOn_intercalate ';' (List.forall_mem_map.mpr fun f member => ?_) ?_
    · exact fun here => ((plain f member).supported here).1 rfl
    · exact fun empty => nonempty (List.map_eq_nil_iff.mp empty)
  have supported : (print filters).any unsupported = false := by
    refine List.any_eq_false.mpr fun c member => Bool.not_eq_true _ ▸ ?_
    by_cases semicolon : c = ';'
    · rw [semicolon]
      decide
    · obtain ⟨piece, listed, here⟩ := exists_mem_split member semicolon
      rw [pieces] at listed
      obtain ⟨f, among, rfl⟩ := List.mem_map.mp listed
      exact ((plain f among).supported here).2
  have each : (filters.map Filter.print).mapM parseFilter = some filters := by
    clear nonempty pieces supported
    induction filters with
    | nil => rfl
    | cons f rest ih =>
        obtain ⟨first, others⟩ := List.forall_mem_cons.mp plain
        rw [List.map_cons, List.mapM_cons, parseFilter_print first, ih others]
        rfl
  rw [parse, supported, pieces, each]
  rfl

/-! ## Wiring -/

/-- A label that names a stream of an input file, and not a link. -/
def isStreamSpecifier (label : Str) : Bool := label.contains ':'

def produced (filters : List Filter) : List Str := filters.flatMap Filter.outputs

def consumed (filters : List Filter) : List Str := filters.flatMap Filter.inputs

/-- A label of the graph, or of the maps of the program's outputs, that is a link. -/
def IsLink (filters : List Filter) (maps : List (List Str)) (label : Str) : Prop :=
  label ∈ produced filters ∨
    (label ∈ consumed filters ∨ label ∈ maps.flatten) ∧ isStreamSpecifier label = false

/-- Every link is produced once, and consumed once: by a later filter or by the map of one
output. -/
structure WellWired (filters : List Filter) (maps : List (List Str)) : Prop where
  produced : ∀ label, IsLink filters maps label → (produced filters).count label = 1
  consumed : ∀ label, IsLink filters maps label →
    (consumed filters).count label + maps.flatten.count label = 1
  own : ∀ f ∈ filters, f.inputs.Disjoint f.outputs
  later : filters.Pairwise fun f g => f.inputs.Disjoint g.outputs

theorem WellWired.of_same {filters : List Filter} {maps : List (List Str)}
    (nodup : (FilterGraph.produced filters).Nodup)
    (same : (FilterGraph.consumed filters ++ maps.flatten).filter (fun label =>
      !isStreamSpecifier label) = FilterGraph.produced filters)
    (own : ∀ f ∈ filters, f.inputs.Disjoint f.outputs)
    (later : filters.Pairwise fun f g => f.inputs.Disjoint g.outputs) :
    WellWired filters maps := by
  have link : ∀ label, IsLink filters maps label →
      label ∈ FilterGraph.produced filters ∧ isStreamSpecifier label = false := by
    have member : ∀ label, label ∈ FilterGraph.produced filters ↔
        (label ∈ FilterGraph.consumed filters ∨ label ∈ maps.flatten) ∧
          isStreamSpecifier label = false := by
      intro label
      rw [← same, List.mem_filter, List.mem_append, Bool.not_eq_true']
    rintro label (out | used)
    · exact ⟨out, ((member label).mp out).2⟩
    · exact ⟨(member label).mpr used, used.2⟩
  refine ⟨fun label is => List.count_eq_one_of_mem nodup (link label is).1, ?_, own, later⟩
  intro label is
  obtain ⟨out, free⟩ := link label is
  have kept := List.count_filter (p := fun label => !isStreamSpecifier label) (a := label)
    (l := FilterGraph.consumed filters ++ maps.flatten) (by rw [free]; rfl)
  rw [← List.count_append, ← kept, same, List.count_eq_one_of_mem nodup out]

/-- A filter that what comes under a label has gone through. -/
inductive Through (filters : List Filter) : Str → Filter → Prop where
  | last {label : Str} {f : Filter} (among : f ∈ filters) (out : label ∈ f.outputs) :
      Through filters label f
  | before {label link : Str} {f g : Filter} (among : f ∈ filters) (out : label ∈ f.outputs)
      (inside : link ∈ f.inputs) (earlier : Through filters link g) : Through filters label g

/-- What is not produced has gone through nothing. -/
theorem not_through {filters : List Filter} {label : Str} (absent : label ∉ produced filters)
    (f : Filter) : ¬ Through filters label f := by
  intro through
  cases through with
  | last among out => exact absent (List.mem_flatMap.mpr ⟨_, among, out⟩)
  | before among out _ _ => exact absent (List.mem_flatMap.mpr ⟨_, among, out⟩)

theorem producer_unique {filters : List Filter} (nodup : (produced filters).Nodup) {f g : Filter}
    {label : Str} (among : f ∈ filters) (among' : g ∈ filters) (out : label ∈ f.outputs)
    (out' : label ∈ g.outputs) : f = g := by
  by_contra other
  have apart : filters.Pairwise fun f g => f.outputs.Disjoint g.outputs :=
    (List.nodup_flatMap.mp nodup).2
  have symmetric : Std.Symm fun f g : Filter => f.outputs.Disjoint g.outputs :=
    ⟨fun _ _ => List.disjoint_symm⟩
  exact apart.forall among among' other out out'

theorem through_iff {filters : List Filter} (nodup : (produced filters).Nodup) {f g : Filter}
    {label : Str} (among : f ∈ filters) (out : label ∈ f.outputs) :
    Through filters label g ↔ g = f ∨ ∃ link ∈ f.inputs, Through filters link g := by
  constructor
  · intro through
    cases through with
    | last among' out' => exact .inl (producer_unique nodup among' among out' out)
    | before among' out' inside earlier =>
        obtain rfl := producer_unique nodup among' among out' out
        exact .inr ⟨_, inside, earlier⟩
  · rintro (rfl | ⟨link, inside, earlier⟩)
    · exact .last among out
    · exact .before among out inside earlier

/-- For a filter with one input. -/
theorem through_iff_of_single {filters : List Filter} (nodup : (produced filters).Nodup)
    {f g : Filter} {label link : Str} (among : f ∈ filters) (out : label ∈ f.outputs)
    (single : f.inputs = [link]) :
    Through filters label g ↔ g = f ∨ Through filters link g := by
  rw [through_iff nodup among out, single]
  refine or_congr_right ⟨fun ⟨other, inside, earlier⟩ => ?_, fun earlier => ?_⟩
  · exact List.mem_singleton.mp inside ▸ earlier
  · exact ⟨link, List.mem_singleton.mpr rfl, earlier⟩

end FilterGraph
