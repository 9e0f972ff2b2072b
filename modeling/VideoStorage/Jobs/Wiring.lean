import VideoStorage.Library.FilterGraph
import VideoStorage.Jobs.Output

/-!
# The filter graph of a conversion

`convert` describes to the encoder how the frames of the input reach its outputs: they are
split for the scales, scaled, and split again for the codecs. The labels of the links are
written in four loops, and each output asks for its own by a stream map.

The description is that of `filterGraph` (`filterDesc_eq`), whose labels are told apart by
their texts (`GraphLabel.text_injective`). So for different codecs the graph is well wired,
whatever the scales, and each output gets the frames of its own scale
(`filterDesc_wired`).
-/

set_option autoImplicit false

namespace VideoStorage.Jobs

open RustStd Str FilterGraph

/-! ## What `convert` builds -/

/-- The filter that splits the frames of the input for the scales. -/
def scaleSplitPart (targetScales : Nat) : Str :=
  let scaleOutputs := (List.range targetScales).flatMap fun i =>
    "[scaled".toList ++ decimal i ++ "]".toList
  "[0:v]split=".toList ++ decimal targetScales ++ scaleOutputs

def scalePart (scale : Scale) (scaleIdx : Nat) : Str :=
  "[scaled".toList ++ decimal scaleIdx ++ "]scale=".toList ++ decimal scale.width.toNat ++
    ":".toList ++ decimal scale.height.toNat ++ "[v".toList ++ decimal scaleIdx ++
    "_base]".toList

/-- The filter that splits the frames of a scale for the codecs. -/
def codecSplitPart (codecs : List ConvertCodec) (scaleIdx : Nat) : Str :=
  let codecOutputs := codecs.flatMap fun codec =>
    "[v".toList ++ decimal scaleIdx ++ codec.segmentPrefix [] ++ "]".toList
  "[v".toList ++ decimal scaleIdx ++ "_base]split=".toList ++ decimal codecs.length ++ codecOutputs

/-- `filter_parts.join(";")`. -/
def filterDesc (job : ConvertJob) : Str :=
  let scales := job.scales.deref
  let codecs := job.codecs.deref
  [';'].intercalate (scaleSplitPart scales.length ::
    (scales.zipIdx.map fun (scale, scaleIdx) => scalePart scale scaleIdx) ++
    scales.zipIdx.map fun (_, scaleIdx) => codecSplitPart codecs scaleIdx)

/-- An output of the encoder, with its stream maps. -/
structure MappedOutput where
  hls : HlsOutput
  streamMaps : List Str
  deriving DecidableEq

/-- The outputs of `convert`, with their stream maps. -/
def ConvertJob.mappedOutputs (job : ConvertJob) (output : Str) : List MappedOutput :=
  job.scales.deref.zipIdx.flatMap fun (scale, scaleIdx) => job.codecs.deref.map fun codec =>
    { hls := hlsOutput job.id output scale codec
      streamMaps := ["0:a?".toList, "v".toList ++ decimal scaleIdx ++ codec.segmentPrefix []] }

/-- What the description is to be: a well-wired graph, in which every split lists as many
labels as it declares, and the output for a scale and a codec gets the frames that have gone
through the filter of this scale, and of no other. -/
structure Wired (job : ConvertJob) (output : Str) (filters : List Filter) : Prop where
  wired : WellWired filters ((job.mappedOutputs output).map MappedOutput.streamMaps)
  splits : ∀ f ∈ filters, f.name = "split".toList → f.args = decimal f.outputs.length
  mapped : ∀ i j scale codec, job.scales.deref[i]? = some scale →
    job.codecs.deref[j]? = some codec →
    ∃ label f, (job.mappedOutputs output)[i * job.codecs.deref.length + j]? =
        some ⟨hlsOutput job.id output scale codec, ["0:a?".toList, label]⟩ ∧
      filters[i + 1]? = some f ∧
      f.args = decimal scale.width.toNat ++ ':' :: decimal scale.height.toNat ∧
      ∀ g, Through filters label g ∧ g.name = "scale".toList ↔ g = f

/-! ## The labels -/

inductive GraphLabel where
  | scaled (scaleIdx : Nat)
  | base (scaleIdx : Nat)
  | variant (scaleIdx : Nat) (codec : ConvertCodec)
  deriving DecidableEq

namespace GraphLabel

def text : GraphLabel → Str
  | scaled scaleIdx => "scaled".toList ++ decimal scaleIdx
  | base scaleIdx => 'v' :: (decimal scaleIdx ++ "_base".toList)
  | variant scaleIdx codec => 'v' :: (decimal scaleIdx ++ codec.playlistSuffix)

theorem text_scaled (i : Nat) : (scaled i).text = "scaled".toList ++ decimal i := rfl

theorem text_base (i : Nat) : (base i).text = 'v' :: (decimal i ++ "_base".toList) := rfl

theorem text_variant (i : Nat) (codec : ConvertCodec) :
    (variant i codec).text = 'v' :: (decimal i ++ codec.playlistSuffix) := rfl

theorem suffix_stops (codec : ConvertCodec) :
    ∀ c ∈ codec.playlistSuffix.head?, c.isDigit = false := by
  intro c first
  cases codec <;> cases first <;> rfl

theorem playlistSuffix_inj {codec codec' : ConvertCodec} :
    codec.playlistSuffix = codec'.playlistSuffix ↔ codec = codec' := by
  cases codec <;> cases codec' <;> decide

/-- Different labels have different texts. -/
theorem text_injective : Function.Injective text := by
  have base_stops : ∀ c ∈ "_base".toList.head?, c.isDigit = false := by
    intro c first
    cases first
    rfl
  have not_base : ∀ codec : ConvertCodec, codec.playlistSuffix ≠ "_base".toList := by
    intro codec
    cases codec <;> decide
  intro label label' same
  cases label with
  | scaled i =>
      cases label' with
      | scaled j =>
          have number := congrArg decimalValue (List.append_cancel_left same)
          rw [decimalValue_decimal, decimalValue_decimal] at number
          rw [number]
      | base j => exact absurd (List.cons.inj same).1 (by decide)
      | variant j codec => exact absurd (List.cons.inj same).1 (by decide)
  | base i =>
      cases label' with
      | scaled j => exact absurd (List.cons.inj same).1 (by decide)
      | base j => rw [((decimal_append_inj base_stops base_stops).mp (List.cons.inj same).2).1]
      | variant j codec =>
          have tails :=
            (decimal_append_inj base_stops (suffix_stops codec)).mp (List.cons.inj same).2
          exact absurd tails.2.symm (not_base codec)
  | variant i codec =>
      cases label' with
      | scaled j => exact absurd (List.cons.inj same).1 (by decide)
      | base j =>
          have tails :=
            (decimal_append_inj (suffix_stops codec) base_stops).mp (List.cons.inj same).2
          exact absurd tails.2 (not_base codec)
      | variant j codec' =>
          obtain ⟨rfl, suffix⟩ :=
            (decimal_append_inj (suffix_stops codec) (suffix_stops codec')).mp
              (List.cons.inj same).2
          rw [playlistSuffix_inj.mp suffix]

end GraphLabel

/-! ## The graph -/

open GraphLabel

def scaleSplit (targetScales : Nat) : Filter :=
  ⟨["0:v".toList], "split".toList, decimal targetScales,
    (List.range targetScales).map fun i => (scaled i).text⟩

def scaleFilter (scale : Scale) (scaleIdx : Nat) : Filter :=
  ⟨[(scaled scaleIdx).text], "scale".toList,
    decimal scale.width.toNat ++ ':' :: decimal scale.height.toNat, [(base scaleIdx).text]⟩

def codecSplit (codecs : List ConvertCodec) (scaleIdx : Nat) : Filter :=
  ⟨[(base scaleIdx).text], "split".toList, decimal codecs.length,
    codecs.map fun codec => (variant scaleIdx codec).text⟩

/-- The graph that the description describes. -/
def filterGraph (scales : List Scale) (codecs : List ConvertCodec) : List Filter :=
  scaleSplit scales.length ::
    (scales.zipIdx.map fun (scale, scaleIdx) => scaleFilter scale scaleIdx) ++
    (List.range scales.length).map (codecSplit codecs)

/-- What is done for every scale by its index alone. -/
theorem map_zipIdx_snd {α : Type} (scales : List Scale) (f : Nat → α) :
    (scales.zipIdx.map fun (_, scaleIdx) => f scaleIdx) = (List.range scales.length).map f := by
  rw [List.range_eq_range', ← List.zipIdx_map_snd 0 scales, List.map_map]
  rfl

theorem flatMap_zipIdx_snd {α : Type} (scales : List Scale) (f : Nat → List α) :
    (scales.zipIdx.flatMap fun (_, scaleIdx) => f scaleIdx) =
      (List.range scales.length).flatMap f := by
  rw [List.flatMap_def, map_zipIdx_snd, ← List.flatMap_def]

/-- A label in brackets, as `convert` writes it. -/
theorem pad_scaled (i : Nat) :
    pad (scaled i).text = "[scaled".toList ++ decimal i ++ "]".toList := by
  rw [GraphLabel.text_scaled]
  generalize decimal i = digits
  rfl

theorem pad_base (i : Nat) : pad (base i).text = "[v".toList ++ decimal i ++ "_base]".toList := by
  rw [GraphLabel.text_base, pad, List.cons_append, List.append_assoc, List.cons_append,
    List.append_assoc]
  generalize decimal i = digits
  rfl

theorem pad_variant (i : Nat) (codec : ConvertCodec) :
    pad (variant i codec).text =
      "[v".toList ++ decimal i ++ codec.segmentPrefix [] ++ "]".toList := by
  rw [GraphLabel.text_variant, ConvertCodec.segmentPrefix_eq, List.nil_append]
  generalize decimal i = digits
  rfl

theorem print_scaleSplit (targetScales : Nat) :
    (scaleSplit targetScales).print = scaleSplitPart targetScales := by
  have outputs : (scaleSplit targetScales).outputs.flatMap pad =
      (List.range targetScales).flatMap fun i => "[scaled".toList ++ decimal i ++ "]".toList :=
    (List.flatMap_map ..).trans (List.flatMap_congr fun i _ => pad_scaled i)
  unfold Filter.print
  rw [outputs]
  unfold scaleSplit scaleSplitPart
  generalize decimal targetScales = number
  rfl

theorem print_scaleFilter (scale : Scale) (scaleIdx : Nat) :
    (scaleFilter scale scaleIdx).print = scalePart scale scaleIdx := by
  have inputs : (scaleFilter scale scaleIdx).inputs.flatMap pad = pad (scaled scaleIdx).text :=
    List.append_nil _
  have outputs : (scaleFilter scale scaleIdx).outputs.flatMap pad = pad (base scaleIdx).text :=
    List.append_nil _
  unfold Filter.print
  rw [inputs, outputs, pad_scaled, pad_base]
  unfold scaleFilter scalePart
  generalize decimal scaleIdx = index
  generalize decimal scale.width.toNat = width
  generalize decimal scale.height.toNat = height
  simp

theorem print_codecSplit (codecs : List ConvertCodec) (scaleIdx : Nat) :
    (codecSplit codecs scaleIdx).print = codecSplitPart codecs scaleIdx := by
  have inputs : (codecSplit codecs scaleIdx).inputs.flatMap pad = pad (base scaleIdx).text :=
    List.append_nil _
  have outputs : (codecSplit codecs scaleIdx).outputs.flatMap pad = codecs.flatMap fun codec =>
      "[v".toList ++ decimal scaleIdx ++ codec.segmentPrefix [] ++ "]".toList :=
    (List.flatMap_map ..).trans (List.flatMap_congr fun codec _ => pad_variant scaleIdx codec)
  unfold Filter.print
  rw [inputs, outputs, pad_base]
  unfold codecSplit codecSplitPart
  generalize decimal codecs.length = number
  generalize decimal scaleIdx = index
  simp

theorem filterDesc_eq (job : ConvertJob) :
    filterDesc job = print (filterGraph job.scales.deref job.codecs.deref) := by
  simp only [filterDesc, print, filterGraph, List.map_append, List.map_cons, List.map_map,
    print_scaleSplit, Function.comp_def, print_scaleFilter, print_codecSplit, map_zipIdx_snd]

/-! ### Every text in it is plain -/

theorem plain_decimal (n : Nat) : Plain (decimal n) :=
  plain_of_allDigits (isDecimal_iff.mp (isDecimal_decimal n)).2

theorem GraphLabel.plain_text (label : GraphLabel) : Plain label.text := by
  have number : ∀ n {suffix : Str}, Plain suffix → Plain ('v' :: (decimal n ++ suffix)) :=
    fun n _ plain => @Plain.append ['v'] _ rfl ((plain_decimal n).append plain)
  cases label with
  | scaled i => exact Plain.append rfl (plain_decimal i)
  | base i => exact number i rfl
  | variant i codec => exact number i (by cases codec <;> rfl)

theorem plain_filterGraph (scales : List Scale) (codecs : List ConvertCodec) :
    ∀ f ∈ filterGraph scales codecs, f.Plain := by
  intro f member
  rcases List.mem_append.mp member with before | last
  · rcases List.mem_cons.mp before with rfl | scale
    · exact ⟨List.forall_mem_singleton.mpr rfl, rfl, plain_decimal _,
        List.forall_mem_map.mpr fun i _ => (scaled i).plain_text⟩
    · obtain ⟨⟨scale, i⟩, -, rfl⟩ := List.mem_map.mp scale
      exact ⟨List.forall_mem_singleton.mpr (scaled i).plain_text, rfl,
        (plain_decimal _).append (@Plain.append [':'] _ rfl (plain_decimal _)),
        List.forall_mem_singleton.mpr (base i).plain_text⟩
  · obtain ⟨i, -, rfl⟩ := List.mem_map.mp last
    exact ⟨List.forall_mem_singleton.mpr (base i).plain_text, rfl, plain_decimal _,
      List.forall_mem_map.mpr fun codec _ => (variant i codec).plain_text⟩

/-! ### The links -/

/-- The links of the graph. -/
def graphLabels (targetScales : Nat) (codecs : List ConvertCodec) : List GraphLabel :=
  (List.range targetScales).map scaled ++ (List.range targetScales).map base ++
    (List.range targetScales).flatMap fun i => codecs.map (variant i)

theorem nodup_graphLabels (targetScales : Nat) {codecs : List ConvertCodec}
    (distinct : codecs.Nodup) : (graphLabels targetScales codecs).Nodup := by
  have range : (List.range targetScales).Nodup := List.nodup_range
  have scaleds : ((List.range targetScales).map scaled).Nodup :=
    range.map fun i j same => GraphLabel.scaled.inj same
  have bases : ((List.range targetScales).map base).Nodup :=
    range.map fun i j same => GraphLabel.base.inj same
  have variants : ((List.range targetScales).flatMap fun i => codecs.map (variant i)).Nodup := by
    refine List.nodup_flatMap.mpr ⟨fun i _ => ?_, range.imp fun {i j} other => ?_⟩
    · exact distinct.map fun codec codec' same => (GraphLabel.variant.inj same).2
    · intro label here there
      obtain ⟨codec, -, rfl⟩ := List.mem_map.mp here
      obtain ⟨codec', -, same⟩ := List.mem_map.mp there
      exact other (GraphLabel.variant.inj same).1.symm
  refine List.nodup_append.mpr ⟨List.nodup_append.mpr ⟨scaleds, bases, ?_⟩, variants, ?_⟩
  · intro label here label' there
    obtain ⟨i, -, rfl⟩ := List.mem_map.mp here
    obtain ⟨j, -, rfl⟩ := List.mem_map.mp there
    nofun
  · intro label here label' there
    obtain ⟨j, -, there⟩ := List.mem_flatMap.mp there
    obtain ⟨codec, -, rfl⟩ := List.mem_map.mp there
    rcases List.mem_append.mp here with here | here
    · obtain ⟨i, -, rfl⟩ := List.mem_map.mp here
      nofun
    · obtain ⟨i, -, rfl⟩ := List.mem_map.mp here
      nofun

theorem GraphLabel.not_streamSpecifier (label : GraphLabel) :
    isStreamSpecifier label.text = false := by
  have digits : ∀ n, ':' ∉ decimal n := fun n =>
    notMem_of_allDigits (isDecimal_iff.mp (isDecimal_decimal n)).2 rfl
  rw [isStreamSpecifier, ← Bool.not_eq_true, List.contains_iff_mem]
  cases label with
  | scaled i => simpa [GraphLabel.text_scaled] using digits i
  | base i => simpa [GraphLabel.text_base] using digits i
  | variant i codec =>
      cases codec <;> simpa [GraphLabel.text_variant, ConvertCodec.playlistSuffix] using digits i

theorem produced_filterGraph (scales : List Scale) (codecs : List ConvertCodec) :
    produced (filterGraph scales codecs) =
      (graphLabels scales.length codecs).map GraphLabel.text := by
  have bases : (scales.zipIdx.map fun (scale, i) => scaleFilter scale i).flatMap Filter.outputs =
      (List.range scales.length).map fun i => (base i).text := by
    rw [List.flatMap_map, ← map_zipIdx_snd, List.map_eq_flatMap]
    rfl
  rw [produced, filterGraph, List.flatMap_append, List.flatMap_cons, bases, List.flatMap_map,
    graphLabels, List.map_append, List.map_append, List.map_flatMap]
  simp only [List.map_map]
  rfl

theorem consumed_filterGraph (scales : List Scale) (codecs : List ConvertCodec) :
    consumed (filterGraph scales codecs) = "0:v".toList ::
      ((List.range scales.length).map (fun i => (scaled i).text) ++
        (List.range scales.length).map fun i => (base i).text) := by
  have scaleds : (scales.zipIdx.map fun (scale, i) => scaleFilter scale i).flatMap Filter.inputs =
      (List.range scales.length).map fun i => (scaled i).text := by
    rw [List.flatMap_map, ← map_zipIdx_snd, List.map_eq_flatMap]
    rfl
  rw [consumed, filterGraph, List.flatMap_append, List.flatMap_cons, scaleds, List.flatMap_map,
    List.map_eq_flatMap (l := List.range scales.length) (f := fun i => (base i).text)]
  rfl

theorem streamMaps_mappedOutputs (job : ConvertJob) (output : Str) :
    ((job.mappedOutputs output).map MappedOutput.streamMaps).flatten =
      (List.range job.scales.deref.length).flatMap fun i => job.codecs.deref.flatMap fun codec =>
        ["0:a?".toList, (variant i codec).text] := by
  have maps : ∀ i codec, "v".toList ++ decimal i ++ codec.segmentPrefix [] =
      (variant i codec).text := fun i codec => by
    rw [ConvertCodec.segmentPrefix_eq, List.nil_append, List.append_assoc]
    rfl
  have each : ∀ entry : Scale × Nat, ((job.codecs.deref.map fun codec =>
      (⟨hlsOutput job.id output entry.1 codec,
        ["0:a?".toList, "v".toList ++ decimal entry.2 ++ codec.segmentPrefix []]⟩ :
        MappedOutput)).map MappedOutput.streamMaps).flatten =
      job.codecs.deref.flatMap fun codec => ["0:a?".toList, (variant entry.2 codec).text] := by
    intro entry
    rw [List.map_map, ← List.flatMap_def]
    exact List.flatMap_congr fun codec _ => by rw [← maps]; rfl
  rw [ConvertJob.mappedOutputs, List.map_flatMap, ← List.flatMap_id, List.flatMap_assoc,
    ← flatMap_zipIdx_snd]
  refine List.flatMap_congr fun entry _ => ?_
  rw [List.flatMap_id]
  exact each entry

/-- What is consumed is what is produced. -/
theorem consumed_eq_produced (job : ConvertJob) (output : Str) :
    (consumed (filterGraph job.scales.deref job.codecs.deref) ++
        ((job.mappedOutputs output).map MappedOutput.streamMaps).flatten).filter
        (fun label => !isStreamSpecifier label) =
      produced (filterGraph job.scales.deref job.codecs.deref) := by
  have kept : ∀ f : Nat → GraphLabel, ∀ indices : List Nat,
      (indices.map fun i => (f i).text).filter (fun label => !isStreamSpecifier label) =
        indices.map fun i => (f i).text := by
    intro f indices
    refine List.filter_eq_self.mpr (List.forall_mem_map.mpr fun i _ => ?_)
    rw [GraphLabel.not_streamSpecifier]
    rfl
  have asked : ∀ i, (job.codecs.deref.flatMap fun codec =>
      ["0:a?".toList, (variant i codec).text]).filter (fun label => !isStreamSpecifier label) =
        job.codecs.deref.map fun codec => (variant i codec).text := by
    intro i
    rw [List.filter_flatMap, List.map_eq_flatMap]
    refine List.flatMap_congr fun codec _ => ?_
    rw [List.filter_cons_of_neg (by decide), List.filter_cons_of_pos, List.filter_nil]
    rw [GraphLabel.not_streamSpecifier]
    rfl
  rw [consumed_filterGraph, streamMaps_mappedOutputs, produced_filterGraph, List.filter_append,
    List.filter_cons_of_neg (by decide), List.filter_append, kept scaled, kept base,
    List.filter_flatMap]
  simp only [asked, graphLabels, List.map_append, List.map_map, List.map_flatMap]
  rfl

/-! ### The filters in order -/

/-- How many filters a link has gone through, less one. -/
def GraphLabel.stage : GraphLabel → Nat
  | scaled _ => 0
  | base _ => 1
  | variant _ _ => 2

structure AtStage (stage : Nat) (f : Filter) : Prop where
  inputs : ∀ text ∈ f.inputs, isStreamSpecifier text = true ∨
    ∃ label : GraphLabel, label.text = text ∧ label.stage < stage
  outputs : ∀ text ∈ f.outputs, ∃ label : GraphLabel, label.text = text ∧ label.stage = stage

theorem AtStage.disjoint {stage stage' : Nat} {f g : Filter} (first : AtStage stage f)
    (second : AtStage stage' g) (le : stage ≤ stage') : f.inputs.Disjoint g.outputs := by
  intro text inside out
  obtain ⟨label, rfl, is⟩ := second.outputs text out
  rcases first.inputs _ inside with specifier | ⟨label', same, before⟩
  · rw [label.not_streamSpecifier] at specifier
    cases specifier
  · rw [GraphLabel.text_injective same] at before
    omega

theorem atStage_scaleSplit (targetScales : Nat) : AtStage 0 (scaleSplit targetScales) :=
  ⟨List.forall_mem_singleton.mpr (.inl rfl),
    List.forall_mem_map.mpr fun i _ => ⟨scaled i, rfl, rfl⟩⟩

theorem atStage_scaleFilter (scale : Scale) (i : Nat) : AtStage 1 (scaleFilter scale i) :=
  ⟨List.forall_mem_singleton.mpr (.inr ⟨scaled i, rfl, Nat.zero_lt_one⟩),
    List.forall_mem_singleton.mpr ⟨base i, rfl, rfl⟩⟩

theorem atStage_codecSplit (codecs : List ConvertCodec) (i : Nat) :
    AtStage 2 (codecSplit codecs i) :=
  ⟨List.forall_mem_singleton.mpr (.inr ⟨base i, rfl, Nat.one_lt_two⟩),
    List.forall_mem_map.mpr fun codec _ => ⟨variant i codec, rfl, rfl⟩⟩

theorem mem_filterGraph {scales : List Scale} {codecs : List ConvertCodec} {f : Filter} :
    f ∈ filterGraph scales codecs ↔ f = scaleSplit scales.length ∨
      (∃ i scale, scales[i]? = some scale ∧ f = scaleFilter scale i) ∨
      ∃ i < scales.length, f = codecSplit codecs i := by
  simp only [filterGraph, List.mem_append, List.mem_cons, List.mem_map, Prod.exists,
    List.mk_mem_zipIdx_iff_getElem?, List.mem_range, or_assoc]
  refine or_congr_right (or_congr ?_ ?_)
  · exact ⟨fun ⟨scale, i, here, is⟩ => ⟨i, scale, here, is.symm⟩,
      fun ⟨i, scale, here, is⟩ => ⟨scale, i, here, is.symm⟩⟩
  · exact exists_congr fun i => and_congr_right fun _ => eq_comm

theorem pairwise_filterGraph (scales : List Scale) (codecs : List ConvertCodec) :
    (filterGraph scales codecs).Pairwise fun f g => f.inputs.Disjoint g.outputs := by
  have scaling : ∀ f ∈ scales.zipIdx.map (fun (scale, i) => scaleFilter scale i), AtStage 1 f :=
    List.forall_mem_map.mpr fun entry _ => atStage_scaleFilter entry.1 entry.2
  have splitting : ∀ f ∈ (List.range scales.length).map (codecSplit codecs), AtStage 2 f :=
    List.forall_mem_map.mpr fun i _ => atStage_codecSplit codecs i
  refine List.pairwise_append.mpr ⟨List.pairwise_cons.mpr ⟨fun f here => ?_, ?_⟩, ?_, ?_⟩
  · exact (atStage_scaleSplit _).disjoint (scaling f here) (by decide)
  · exact List.pairwise_of_forall_mem_list fun f here g there =>
      (scaling f here).disjoint (scaling g there) (le_refl 1)
  · exact List.pairwise_of_forall_mem_list fun f here g there =>
      (splitting f here).disjoint (splitting g there) (le_refl 2)
  · intro f here g there
    rcases List.mem_cons.mp here with rfl | here
    · exact (atStage_scaleSplit _).disjoint (splitting g there) (by decide)
    · exact (scaling f here).disjoint (splitting g there) (by decide)

theorem own_filterGraph {scales : List Scale} {codecs : List ConvertCodec} :
    ∀ f ∈ filterGraph scales codecs, f.inputs.Disjoint f.outputs := by
  intro f member
  rcases mem_filterGraph.mp member with rfl | ⟨i, scale, -, rfl⟩ | ⟨i, -, rfl⟩
  · exact (atStage_scaleSplit _).disjoint (atStage_scaleSplit _) le_rfl
  · exact (atStage_scaleFilter scale i).disjoint (atStage_scaleFilter scale i) le_rfl
  · exact (atStage_codecSplit codecs i).disjoint (atStage_codecSplit codecs i) le_rfl

/-! ### What an output gets -/

/-- The frames of a variant have gone through the filter of its scale, and no other. -/
theorem through_variant {scales : List Scale} {codecs : List ConvertCodec}
    (distinct : codecs.Nodup) {i : Nat} {scale : Scale} {codec : ConvertCodec}
    (here : scales[i]? = some scale) (among : codec ∈ codecs) (g : Filter) :
    Through (filterGraph scales codecs) (variant i codec).text g ∧ g.name = "scale".toList ↔
      g = scaleFilter scale i := by
  have nodup : (produced (filterGraph scales codecs)).Nodup := by
    rw [produced_filterGraph]
    exact (nodup_graphLabels _ distinct).map text_injective
  obtain ⟨less, -⟩ := List.getElem?_eq_some_iff.mp here
  have input : ∀ f, ¬ Through (filterGraph scales codecs) "0:v".toList f := by
    refine not_through fun member => ?_
    rw [produced_filterGraph] at member
    obtain ⟨label, -, same⟩ := List.mem_map.mp member
    have specifier : isStreamSpecifier "0:v".toList = false := same ▸ label.not_streamSpecifier
    exact absurd specifier (by decide)
  have atScaled : Through (filterGraph scales codecs) (scaled i).text g ↔
      g = scaleSplit scales.length := by
    rw [through_iff_of_single nodup (mem_filterGraph.mpr (.inl rfl))
      (List.mem_map.mpr ⟨i, List.mem_range.mpr less, rfl⟩) rfl, or_iff_left (input g)]
  have atBase : Through (filterGraph scales codecs) (base i).text g ↔
      g = scaleFilter scale i ∨ g = scaleSplit scales.length := by
    rw [← atScaled]
    exact through_iff_of_single nodup (mem_filterGraph.mpr (.inr (.inl ⟨i, scale, here, rfl⟩)))
      (List.mem_singleton.mpr rfl) rfl
  have atVariant : Through (filterGraph scales codecs) (variant i codec).text g ↔
      g = codecSplit codecs i ∨ g = scaleFilter scale i ∨ g = scaleSplit scales.length := by
    rw [← atBase]
    exact through_iff_of_single nodup (mem_filterGraph.mpr (.inr (.inr ⟨i, less, rfl⟩)))
      (List.mem_map.mpr ⟨codec, among, rfl⟩) rfl
  rw [atVariant]
  constructor
  · rintro ⟨rfl | rfl | rfl, name⟩
    · exact absurd name (by decide : "split".toList ≠ "scale".toList)
    · rfl
    · exact absurd name (by decide : "split".toList ≠ "scale".toList)
  · rintro rfl
    exact ⟨.inr (.inl rfl), rfl⟩

/-- The outputs are listed scale by scale. -/
theorem getElem?_flatMap_map {α β γ : Type} {xs : List α} {ys : List β} (f : α → β → γ) {i j : Nat}
    {x : α} {y : β} (here : xs[i]? = some x) (there : ys[j]? = some y) :
    (xs.flatMap fun x => ys.map (f x))[i * ys.length + j]? = some (f x y) := by
  obtain ⟨less, -⟩ := List.getElem?_eq_some_iff.mp there
  induction xs generalizing i with
  | nil => cases here
  | cons first rest ih =>
      rw [List.flatMap_cons]
      cases i with
      | zero =>
          obtain rfl := Option.some.inj here
          rw [Nat.zero_mul, Nat.zero_add, List.getElem?_append_left (by rwa [List.length_map]),
            List.getElem?_map, there]
          rfl
      | succ i =>
          have index : (i + 1) * ys.length + j - (ys.map (f first)).length =
              i * ys.length + j := by
            rw [List.length_map, Nat.succ_mul]
            omega
          rw [List.getElem?_append_right (by rw [List.length_map, Nat.succ_mul]; omega), index]
          exact ih here

theorem getElem?_mappedOutputs (job : ConvertJob) (output : Str) {i j : Nat} {scale : Scale}
    {codec : ConvertCodec} (here : job.scales.deref[i]? = some scale)
    (there : job.codecs.deref[j]? = some codec) :
    (job.mappedOutputs output)[i * job.codecs.deref.length + j]? =
      some ⟨hlsOutput job.id output scale codec, ["0:a?".toList, (variant i codec).text]⟩ := by
  have entry : job.scales.deref.zipIdx[i]? = some (scale, i) := by
    rw [List.getElem?_zipIdx, here, Nat.zero_add]
    rfl
  have listed := getElem?_flatMap_map (fun (entry : Scale × Nat) codec => MappedOutput.mk
    (hlsOutput job.id output entry.1 codec)
    ["0:a?".toList, "v".toList ++ decimal entry.2 ++ codec.segmentPrefix []]) entry there
  have label : "v".toList ++ decimal i ++ codec.segmentPrefix [] = (variant i codec).text := by
    rw [ConvertCodec.segmentPrefix_eq, List.nil_append, List.append_assoc]
    rfl
  rw [← label]
  exact listed

/-- **The filter graph is well wired** for every job whose codecs are different, whatever
its scales. -/
theorem filterDesc_wired (job : ConvertJob) (output : Str) (distinct : job.codecs.codecs.Nodup) :
    ∃ filters, parse (filterDesc job) = some filters ∧ Wired job output filters := by
  have distinct : job.codecs.deref.Nodup := by
    unfold ConvertCodecs.deref
    split
    · decide
    · exact distinct
  refine ⟨filterGraph job.scales.deref job.codecs.deref, ?_, ?_, ?_, ?_⟩
  · rw [filterDesc_eq]
    exact parse_print (List.cons_ne_nil _ _) (plain_filterGraph _ _)
  · refine .of_same ?_ (consumed_eq_produced job output) own_filterGraph (pairwise_filterGraph ..)
    rw [produced_filterGraph]
    exact (nodup_graphLabels _ distinct).map text_injective
  · intro f member named
    rcases mem_filterGraph.mp member with rfl | ⟨i, scale, -, rfl⟩ | ⟨i, -, rfl⟩
    · simp [scaleSplit]
    · exact absurd named (by decide : "scale".toList ≠ "split".toList)
    · simp [codecSplit]
  · intro i j scale codec here there
    obtain ⟨less, -⟩ := List.getElem?_eq_some_iff.mp here
    refine ⟨(variant i codec).text, scaleFilter scale i,
      getElem?_mappedOutputs job output here there, ?_, rfl,
      through_variant distinct here (List.mem_of_getElem? there)⟩
    rw [filterGraph, List.cons_append, List.getElem?_cons_succ,
      List.getElem?_append_left (by rwa [List.length_map, List.length_zipIdx]), List.getElem?_map,
      List.getElem?_zipIdx, here, Nat.zero_add]
    rfl

/-- A job for one size, twice, and all the codecs. -/
theorem filterDesc_wired_repeated :
    let job : ConvertJob := ⟨"film".toList, 30, none, ⟨[⟨720, 1280⟩, ⟨720, 1280⟩]⟩,
      ⟨[.h264, .vp9, .h265]⟩, 0⟩
    ∃ filters, parse (filterDesc job) = some filters ∧ Wired job "videos".toList filters :=
  filterDesc_wired _ _ (by decide)

end VideoStorage.Jobs
