import Mathlib.Data.List.ProdSigma
import VideoStorage.Api.Upload

/-!
# The variants of a conversion

`convert` asks the encoder for one output for every scale and every codec of a
job, and `create_master_playlist` lists the playlists of all of them. The scales
and the codecs are told apart by their indices in the filter graph, but the paths
of an output are made of the width and the codec alone. So two outputs share
their files when a width or a codec is repeated, and the check of the job id lets
a line break into the lines of the master playlist. Without these the variants
are apart (`variantsApart_iff`).
-/

set_option autoImplicit false

namespace VideoStorage.Api

open RustStd Str Path Jobs

/-! ## The master playlist -/

/-- `Scales::bandwidth`. -/
def bandwidth (width : UInt32) : UInt32 :=
  if width ≥ 720 then 735000 else if width ≥ 540 then 495000 else 430000

def codecsAttribute : ConvertCodec → Str
  | .vp9 => "vp09.00.51.08.01.01.01.01.00,opus".toList
  | .h265 => "hvc1.1.6.L90.B0,mp4a.40.2".toList
  | .h264 => "avc1.4D401F,mp4a.40.2".toList

/-- The tag of a variant. -/
def variantTag (codec : ConvertCodec) (scale : Scale) : Str :=
  "#EXT-X-STREAM-INF:BANDWIDTH=".toList ++ decimal (bandwidth scale.width).toNat ++
    ",RESOLUTION=".toList ++ decimal scale.width.toNat ++ 'x' :: decimal scale.height.toNat ++
    ",CODECS=\"".toList ++ codecsAttribute codec ++ "\"".toList

/-- The tag of a variant, and below it its playlist. -/
def variantEntry (jobId : Str) (codec : ConvertCodec) (scale : Scale) : Str :=
  variantTag codec scale ++ "\n".toList ++
    (decimal scale.width.toNat ++ '/' :: codec.playlistFilename jobId ++ "\n".toList)

/-- The content that `create_master_playlist` writes. -/
def masterPlaylist (job : ConvertJob) : Str :=
  "#EXTM3U\n".toList ++ "#EXT-X-VERSION:7\n".toList ++ "#EXT-X-INDEPENDENT-SEGMENTS\n".toList ++
    job.codecs.deref.flatMap fun codec => job.scales.deref.flatMap (variantEntry job.id codec)

/-- A line of a playlist that names a file: it is not blank, and neither a tag nor
a comment. -/
def isUri (line : Str) : Bool := !line.isEmpty && line.head? != some '#'

def uris (playlist : Str) : List Str := (split '\n' playlist).filter isUri

/-- The playlists that the master playlist lists, which are found from the
directory it stands in. -/
def listedPlaylists (job : ConvertJob) (output : Str) : List Str :=
  (uris (masterPlaylist job)).map (join output)

/-! ## Variants apart -/

/-- The encoder puts the init segment beside the playlist. -/
def initPath (output : HlsOutput) : Str :=
  match rsplitOnce '/' output.playlistPath with
  | some (dir, _) => dir ++ '/' :: output.initFilename
  | none => output.initFilename

/-- Two outputs of the encoder have no file in common. -/
structure Apart (a b : HlsOutput) : Prop where
  playlistPath : a.playlistPath ≠ b.playlistPath
  initPath : initPath a ≠ initPath b
  segmentFilename : a.segmentFilename ≠ b.segmentFilename

/-- The outputs for different scales and codecs are apart, and the master playlist
lists the playlist of each once and nothing else. -/
structure VariantsApart (job : ConvertJob) (output : Str) : Prop where
  apart : (job.outputs output).Pairwise Apart
  listed : ∀ path, (listedPlaylists job output).count path =
    if path ∈ (job.outputs output).map HlsOutput.playlistPath then 1 else 0

/-! ## The paths of a variant -/

theorem decimal_injective : Function.Injective decimal :=
  Function.LeftInverse.injective decimalValue_decimal

theorem playlistSuffix_injective : Function.Injective ConvertCodec.playlistSuffix := by
  intro codec codec' same
  cases codec <;> cases codec' <;> first | rfl | cases same

theorem isAbsolute_decimal (n : Nat) (more : Str) : isAbsolute (decimal n ++ more) = false := by
  have digits := notMem_decimal (c := '/') (by decide) n
  cases printed : decimal n with
  | nil =>
      have nonempty := (isDecimal_iff.mp (isDecimal_decimal n)).1
      exact absurd printed nonempty
  | cons c rest =>
      rw [printed, List.mem_cons, not_or] at digits
      rw [List.cons_append, isAbsolute_cons]
      exact beq_eq_false_iff_ne.mpr (Ne.symm digits.1)

/-- A file of a job for a width and a codec: its path below the output directory. -/
def variantPath (jobId tail : Str) (width : UInt32) (codec : ConvertCodec) : Str :=
  decimal width.toNat ++ '/' :: (jobId ++ codec.playlistSuffix ++ tail)

/-- The paths of different widths or codecs are different. -/
theorem variantPath_inj {jobId tail : Str} {width width' : UInt32} {codec codec' : ConvertCodec} :
    variantPath jobId tail width codec = variantPath jobId tail width' codec' ↔
      width = width' ∧ codec = codec' := by
  constructor
  · intro same
    have digits : ∀ n, '/' ∉ decimal n := notMem_decimal (by decide)
    have pieces := congrArg (splitOnce '/') same
    rw [variantPath, variantPath, splitOnce_append (digits _), splitOnce_append (digits _),
      Option.some.injEq, Prod.mk.injEq, List.append_cancel_right_eq,
      List.append_cancel_left_eq] at pieces
    exact ⟨UInt32.toNat_inj.mp (decimal_injective pieces.1), playlistSuffix_injective pieces.2⟩
  · rintro ⟨rfl, rfl⟩
    rfl

theorem join_variantPath_inj {jobId tail output : Str} {width width' : UInt32}
    {codec codec' : ConvertCodec} :
    join output (variantPath jobId tail width codec) =
        join output (variantPath jobId tail width' codec') ↔ width = width' ∧ codec = codec' := by
  have relative : ∀ width codec, isAbsolute (variantPath jobId tail width codec) = false :=
    fun width _ => isAbsolute_decimal width.toNat _
  rw [join_inj (relative ..) (relative ..), variantPath_inj]

/-- Below the directory of a width. -/
theorem outDir_append (output : Str) (n : Nat) (name : Str) :
    join output (decimal n) ++ '/' :: name = join output (decimal n ++ '/' :: name) := by
  have relative := isAbsolute_decimal n []
  rw [List.append_nil] at relative
  rw [join_relative relative, join_relative (isAbsolute_decimal n _)]
  split
  · rw [List.append_assoc, List.cons_append]
  · rw [List.append_assoc]

theorem ValidJobId.relative {jobId : Str} (valid : ValidJobId jobId) :
    isAbsolute jobId = false := by
  obtain ⟨nonempty, noSlash, -, -⟩ := valid
  cases jobId with
  | nil => exact absurd rfl nonempty
  | cons c rest =>
      rw [List.mem_cons, not_or] at noSlash
      exact beq_eq_false_iff_ne.mpr fun same => noSlash.1 (Option.some.inj same).symm

section Paths

variable {jobId : Str} (valid : ValidJobId jobId) (output : Str) (scale : Scale)
  (codec : ConvertCodec)

theorem segmentFilename_variant :
    (hlsOutput jobId output scale codec).segmentFilename =
      join output (variantPath jobId "-%03d.m4s".toList scale.width codec) := by
  rw [variantPath, ← outDir_append, ← ConvertCodec.segmentPrefix_eq]
  exact List.append_assoc ..

include valid

theorem playlistPath_variant :
    (hlsOutput jobId output scale codec).playlistPath =
      join output (variantPath jobId ".m3u8".toList scale.width codec) :=
  playlistPath_hlsOutput valid.nonempty valid.relative output scale codec

theorem initPath_variant :
    initPath (hlsOutput jobId output scale codec) =
      join output (variantPath jobId "-init.mp4".toList scale.width codec) := by
  have noSlash : '/' ∉ codec.playlistFilename jobId :=
    notMem_name (.inl rfl) valid.noSlash (.playlist codec scale.width)
  have parent : rsplitOnce '/' (hlsOutput jobId output scale codec).playlistPath =
      some (join output (decimal scale.width.toNat), codec.playlistFilename jobId) := by
    rw [rsplitOnce_eq_some, outDir_append]
    exact ⟨playlistPath_variant valid output scale codec, noSlash⟩
  rw [initPath, parent, variantPath, ← outDir_append, ← ConvertCodec.segmentPrefix_eq]
  rfl

theorem apart_iff (scale' : Scale) (codec' : ConvertCodec) :
    Apart (hlsOutput jobId output scale codec) (hlsOutput jobId output scale' codec') ↔
      (scale.width, codec) ≠ (scale'.width, codec') := by
  have differ : ¬ (scale.width = scale'.width ∧ codec = codec') ↔
      (scale.width, codec) ≠ (scale'.width, codec') := by rw [Ne, Prod.mk.injEq]
  rw [← differ]
  constructor
  · intro apart same
    refine apart.segmentFilename ?_
    rw [segmentFilename_variant, segmentFilename_variant, join_variantPath_inj]
    exact same
  · intro different
    refine ⟨?_, ?_, ?_⟩
    · rwa [playlistPath_variant valid, playlistPath_variant valid, Ne, join_variantPath_inj]
    · rwa [initPath_variant valid, initPath_variant valid, Ne, join_variantPath_inj]
    · rwa [segmentFilename_variant, segmentFilename_variant, Ne, join_variantPath_inj]

end Paths

/-! ## All variants -/

/-- The pairs of two nonempty lists are different when the entries of each are. -/
theorem nodup_product_iff {α β : Type} {l : List α} {l' : List β} (nonempty : l ≠ [])
    (nonempty' : l' ≠ []) : (l ×ˢ l').Nodup ↔ l.Nodup ∧ l'.Nodup := by
  constructor
  · intro distinct
    obtain ⟨inner, outer⟩ := List.nodup_flatMap.mp distinct
    obtain ⟨first, member⟩ := List.exists_mem_of_ne_nil l nonempty
    obtain ⟨last, member'⟩ := List.exists_mem_of_ne_nil l' nonempty'
    refine ⟨outer.imp fun {a b} disjoint same => ?_, (inner first member).of_map _⟩
    exact disjoint (List.mem_map_of_mem member') (same ▸ List.mem_map_of_mem member')
  · rintro ⟨distinct, distinct'⟩
    exact distinct.product distinct'

theorem deref_scales_ne_nil (scales : Scales) : scales.deref ≠ [] := by
  unfold Scales.deref
  split
  · nofun
  · rename_i present
    exact fun empty => present (List.isEmpty_iff.mpr empty)

theorem deref_codecs_ne_nil (codecs : ConvertCodecs) : codecs.deref ≠ [] := by
  unfold ConvertCodecs.deref
  split
  · nofun
  · rename_i present
    exact fun empty => present (List.isEmpty_iff.mpr empty)

theorem outputs_eq (job : ConvertJob) (output : Str) :
    job.outputs output =
      (job.scales.deref ×ˢ job.codecs.deref).map fun pair =>
        hlsOutput job.id output pair.1 pair.2 := by
  change _ = List.map _ (List.product _ _)
  rw [List.product, List.map_flatMap]
  refine List.flatMap_congr fun scale _ => ?_
  rw [List.map_map]
  rfl

theorem map_width_product (scales : List Scale) (codecs : List ConvertCodec) :
    ((scales ×ˢ codecs).map fun pair => (pair.1.width, pair.2)) =
      scales.map Scale.width ×ˢ codecs := by
  induction scales with
  | nil => rfl
  | cons scale rest ih =>
      rw [List.product_cons, List.map_append, ih, List.map_map, List.map_cons, List.product_cons]
      rfl

/-- The outputs are apart when no width and no codec is repeated. -/
theorem pairwise_apart_iff {job : ConvertJob} (valid : ValidJobId job.id) (output : Str) :
    (job.outputs output).Pairwise Apart ↔
      (job.scales.deref.map Scale.width).Nodup ∧ job.codecs.deref.Nodup := by
  have nonempty : job.scales.deref.map Scale.width ≠ [] := fun empty =>
    deref_scales_ne_nil _ (List.map_eq_nil_iff.mp empty)
  rw [← nodup_product_iff nonempty (deref_codecs_ne_nil _), ← map_width_product, outputs_eq,
    List.Nodup, List.pairwise_map, List.pairwise_map]
  simp only [apart_iff valid]

/-! ## What the master playlist lists -/

theorem uris_append (front back : Str) :
    uris (front ++ '\n' :: back) = uris front ++ uris back := by
  rw [uris, split, List.splitOn_append_cons_self, List.filter_append]
  rfl

theorem uris_line {line : Str} (single : '\n' ∉ line) :
    uris line = if isUri line then [line] else [] := by
  rw [uris, split_of_notMem single, List.filter_singleton]
  cases isUri line <;> rfl

/-- Texts one behind the other, each of which ends with a line break. -/
theorem uris_flatMap {α : Type} {entry : α → Str} {listed : α → List Str}
    (each : ∀ a rest, uris (entry a ++ rest) = listed a ++ uris rest) (l : List α) (rest : Str) :
    uris (l.flatMap entry ++ rest) = l.flatMap listed ++ uris rest := by
  induction l with
  | nil => rfl
  | cons a more ih =>
      rw [List.flatMap_cons, List.flatMap_cons, List.append_assoc, each, ih, List.append_assoc]

theorem uris_header (rest : Str) :
    uris ("#EXTM3U\n".toList ++ "#EXT-X-VERSION:7\n".toList ++
      "#EXT-X-INDEPENDENT-SEGMENTS\n".toList ++ rest) = uris rest := by
  have tag : ∀ text line : Str, text = line ++ ['\n'] → '\n' ∉ line → isUri line = false →
      ∀ back, uris (text ++ back) = uris back := by
    rintro _ line rfl single comment back
    rw [List.append_assoc, List.singleton_append, uris_append, uris_line single,
      if_neg (by rw [comment]; nofun), List.nil_append]
  rw [List.append_assoc, List.append_assoc,
    tag "#EXTM3U\n".toList "#EXTM3U".toList rfl (by decide) rfl,
    tag "#EXT-X-VERSION:7\n".toList "#EXT-X-VERSION:7".toList rfl (by decide) rfl,
    tag "#EXT-X-INDEPENDENT-SEGMENTS\n".toList "#EXT-X-INDEPENDENT-SEGMENTS".toList rfl
      (by decide) rfl]

theorem newline_notMem_variantTag (codec : ConvertCodec) (scale : Scale) :
    '\n' ∉ variantTag codec scale := by
  have digits : ∀ n, '\n' ∉ decimal n := notMem_decimal (by decide)
  have codecs : '\n' ∉ codecsAttribute codec := by cases codec <;> decide
  unfold variantTag
  simp only [List.mem_append, List.mem_cons, not_or]
  exact ⟨⟨⟨⟨⟨⟨⟨by decide, digits _⟩, by decide⟩, digits _⟩, by decide, digits _⟩, by decide⟩,
    codecs⟩, by decide⟩

/-- A variant is listed by its path, when this is one line. -/
theorem uris_variantEntry {jobId : Str} (single : '\n' ∉ jobId) (codec : ConvertCodec)
    (scale : Scale) (rest : Str) :
    uris (variantEntry jobId codec scale ++ rest) =
      [variantPath jobId ".m3u8".toList scale.width codec] ++ uris rest := by
  have suffix : '\n' ∉ codec.playlistSuffix := by cases codec <;> decide
  have path : '\n' ∉ variantPath jobId ".m3u8".toList scale.width codec := by
    have digits := notMem_decimal (c := '\n') (by decide) scale.width.toNat
    simp [variantPath, digits, single, suffix]
  have named : isUri (variantPath jobId ".m3u8".toList scale.width codec) = true := by
    have noHash := notMem_decimal (c := '#') (by decide) scale.width.toNat
    cases printed : decimal scale.width.toNat with
    | nil => exact absurd printed (isDecimal_iff.mp (isDecimal_decimal _)).1
    | cons c digits =>
        rw [printed, List.mem_cons, not_or] at noHash
        simp [variantPath, printed, isUri, Ne.symm noHash.1]
  have comment : isUri (variantTag codec scale) = false := rfl
  have entry : variantEntry jobId codec scale ++ rest = variantTag codec scale ++ '\n' ::
      (variantPath jobId ".m3u8".toList scale.width codec ++ '\n' :: rest) := by
    simp [variantEntry, variantPath, ConvertCodec.playlistFilename]
  rw [entry, uris_append, uris_append, uris_line (newline_notMem_variantTag codec scale),
    uris_line path, comment, named]
  rfl

/-- The paths that the master playlist lists. -/
theorem uris_masterPlaylist {job : ConvertJob} (single : '\n' ∉ job.id) :
    uris (masterPlaylist job) = (job.codecs.deref ×ˢ job.scales.deref).map fun pair =>
      variantPath job.id ".m3u8".toList pair.2.width pair.1 := by
  have ofScale : ∀ codec, ∀ scales : List Scale, ∀ rest,
      uris (scales.flatMap (variantEntry job.id codec) ++ rest) =
        (scales.map fun scale => variantPath job.id ".m3u8".toList scale.width codec) ++
          uris rest := by
    intro codec scales rest
    rw [uris_flatMap (uris_variantEntry single codec), ← List.map_eq_flatMap]
  have ofCodec := uris_flatMap (fun codec => ofScale codec job.scales.deref) job.codecs.deref []
  rw [List.append_nil] at ofCodec
  unfold masterPlaylist
  rw [uris_header, ofCodec]
  change _ = List.map _ (List.product _ _)
  rw [List.product, List.map_flatMap]
  refine (List.append_nil _).trans (List.flatMap_congr fun codec _ => ?_)
  rw [List.map_map]
  rfl

/-- The variants are listed as they are when the job id is one line. -/
theorem mem_listedPlaylists {job : ConvertJob} (valid : ValidJobId job.id)
    (single : '\n' ∉ job.id) (output path : Str) :
    path ∈ listedPlaylists job output ↔
      path ∈ (job.outputs output).map HlsOutput.playlistPath := by
  rw [listedPlaylists, uris_masterPlaylist single, outputs_eq, List.map_map, List.map_map,
    List.mem_map, List.mem_map]
  constructor
  · rintro ⟨⟨codec, scale⟩, member, rfl⟩
    obtain ⟨inCodecs, inScales⟩ := List.mem_product.mp member
    exact ⟨(scale, codec), List.mem_product.mpr ⟨inScales, inCodecs⟩,
      playlistPath_variant valid output scale codec⟩
  · rintro ⟨⟨scale, codec⟩, member, rfl⟩
    obtain ⟨inScales, inCodecs⟩ := List.mem_product.mp member
    exact ⟨(codec, scale), List.mem_product.mpr ⟨inCodecs, inScales⟩,
      (playlistPath_variant valid output scale codec).symm⟩

theorem nodup_listedPlaylists {job : ConvertJob} (single : '\n' ∉ job.id)
    (widths : (job.scales.deref.map Scale.width).Nodup) (codecs : job.codecs.deref.Nodup)
    (output : Str) : (listedPlaylists job output).Nodup := by
  rw [listedPlaylists, uris_masterPlaylist single, List.map_map]
  refine List.Nodup.map_on ?_ (codecs.product widths.of_map)
  rintro ⟨codec, scale⟩ member ⟨codec', scale'⟩ member' same
  obtain ⟨sameWidth, sameCodec⟩ := join_variantPath_inj.mp same
  have sameScale : scale = scale' := List.inj_on_of_nodup_map widths
    (List.mem_product.mp member).2 (List.mem_product.mp member').2 sameWidth
  exact Prod.ext sameCodec sameScale

/-- No line has the line break of a job id. -/
theorem newline_notMem_of_listed {job : ConvertJob} (valid : ValidJobId job.id) {output : Str}
    (listed : ∀ path ∈ (job.outputs output).map HlsOutput.playlistPath,
      path ∈ listedPlaylists job output) : '\n' ∉ job.id := by
  intro inId
  obtain ⟨scale, inScales⟩ := List.exists_mem_of_ne_nil _ (deref_scales_ne_nil job.scales)
  obtain ⟨codec, inCodecs⟩ := List.exists_mem_of_ne_nil _ (deref_codecs_ne_nil job.codecs)
  have inPath : '\n' ∈ variantPath job.id ".m3u8".toList scale.width codec := by
    simp [variantPath, inId]
  have asked : (hlsOutput job.id output scale codec).playlistPath ∈
      (job.outputs output).map HlsOutput.playlistPath := by
    rw [outputs_eq]
    exact List.mem_map_of_mem
      (List.mem_map.mpr ⟨(scale, codec), List.mem_product.mpr ⟨inScales, inCodecs⟩, rfl⟩)
  obtain ⟨line, member, same⟩ := List.mem_map.mp (listed _ asked)
  have single : '\n' ∉ line := notMem_of_mem_split (List.mem_filter.mp member).1
  have relative : isAbsolute (variantPath job.id ".m3u8".toList scale.width codec) = false :=
    isAbsolute_decimal scale.width.toNat _
  rw [playlistPath_variant valid] at same
  cases absolute : isAbsolute line with
  | true =>
      rw [join_absolute absolute, join_relative relative] at same
      refine single ?_
      rw [same]
      split
      · exact List.mem_append_right _ (List.mem_cons_of_mem _ inPath)
      · exact List.mem_append_right _ inPath
  | false => exact single ((join_inj absolute relative).mp same ▸ inPath)

/-! ## The job of a request -/

theorem validJobId_of_checkUpload {state : UploadState} {job : ConvertJob}
    (passes : checkUpload state job = .ok ()) : ValidJobId job.id := by
  refine validJobId_of ?_
  cases valid : isValidJobId job.id with
  | true => rfl
  | false =>
      -- Every way through the earlier checks ends at the one of the job id.
      unfold checkUpload at passes
      simp only [valid, Bool.not_false, if_true, bind, Except.bind, throw, throwThe,
        MonadExceptOf.throw] at passes
      repeat' split at passes
      all_goals cases passes

/-- **No two variants share a file** exactly when no width and no codec is repeated
and the job id has no line break. -/
theorem variantsApart_iff {state : UploadState} {job : ConvertJob} (output : Str)
    (passes : checkUpload state job = .ok ()) :
    VariantsApart job output ↔
      (job.scales.deref.map Scale.width).Nodup ∧ job.codecs.deref.Nodup ∧ '\n' ∉ job.id := by
  have valid := validJobId_of_checkUpload passes
  constructor
  · rintro ⟨apart, listed⟩
    obtain ⟨widths, codecs⟩ := (pairwise_apart_iff valid output).mp apart
    refine ⟨widths, codecs, newline_notMem_of_listed valid fun path (member : path ∈
      (job.outputs output).map HlsOutput.playlistPath) => ?_⟩
    have once := listed path
    rw [if_pos member] at once
    exact List.count_pos_iff.mp (once ▸ Nat.one_pos)
  · rintro ⟨widths, codecs, single⟩
    refine ⟨(pairwise_apart_iff valid output).mpr ⟨widths, codecs⟩, fun path => ?_⟩
    rw [(nodup_listedPlaylists single widths codecs output).count]
    simp only [mem_listedPlaylists valid single]

/-- The default scales and codecs. -/
theorem variantsApart_iff_defaults :
    VariantsApart (.new "a".toList 30 .new) "/out".toList :=
  (@variantsApart_iff idleUploads (.new "a".toList 30 .new) "/out".toList rfl).mpr
    ⟨by decide, by decide, by decide⟩

/-- A job for one width with two heights. -/
def twoHeights : ConvertJob :=
  { ConvertJob.new "a".toList 30 ⟨[⟨720, 1280⟩, ⟨720, 720⟩]⟩ with codecs := ⟨[.vp9]⟩ }

/-- The two heights are converted into the same files, and the master playlist lists
one playlist twice. -/
theorem repeated_width_shares_files :
    (uploadMp4Raw idleUploads (.ok twoHeights) [.data [1]] everyOperationSucceeds).1.status =
      .accepted ∧
    (twoHeights.outputs "/out".toList).map HlsOutput.playlistPath =
      ["/out/720/a.m3u8".toList, "/out/720/a.m3u8".toList] ∧
    uris (masterPlaylist twoHeights) = ["720/a.m3u8".toList, "720/a.m3u8".toList] ∧
    ¬ VariantsApart twoHeights "/out".toList := by
  refine ⟨rfl, by decide, by decide, fun variants => ?_⟩
  have first := (List.pairwise_cons.mp variants.apart).1 _ (List.mem_singleton_self _)
  exact first.playlistPath rfl

end VideoStorage.Api
