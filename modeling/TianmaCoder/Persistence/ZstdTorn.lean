import TianmaCoder.Persistence.ZstdFrames

/-!
# Where a torn log is split

A log of frames that is cut at some byte is split into the frames before the cut and the frame
the cut goes through. The limit on the number of frames is looked at after a frame was taken, so
a limit of zero is no limit.

## Main results

* `split_iff_limited` — the scan splits a log at its frame boundaries, up to its limit, exactly
  when that is not zero or the cut leaves no frame.
-/

namespace TianmaCoder

namespace Zstd

/-- A position where no frame is cut. -/
def IsBoundary (frames : List ZstdFrame) (k : ℕ) : Prop :=
  k = 0 ∨ ∃ range ∈ rangesFrom 0 frames, range.stop = k

/-- As many frames as a limit allows. -/
def upTo (maxFrames : Option ℕ) (frames : List ZstdFrameRange) : List ZstdFrameRange :=
  match maxFrames with
  | none => frames
  | some m => frames.take m

/-- The scan of a log cut at `k` returns the first frames before the cut, as many as the limit
allows; where it gets to the cut, it tells the frame that holds the last byte, unless the cut is
at a boundary. -/
structure SplitAt (frames : List ZstdFrame) (k : ℕ) (maxFrames : Option ℕ)
    (scan : ZstdFrameScan) : Prop where
  frames_eq : scan.frames = upTo maxFrames (completeIn 0 frames k)
  torn_iff : (∀ m, maxFrames = some m → (completeIn 0 frames k).length < m) →
    ∀ start, scan.tornStart = some start ↔ ¬IsBoundary frames k ∧
      ∃ range ∈ rangesFrom 0 frames, range.start = start ∧ range.start < k ∧ k ≤ range.stop

/-- Two frames over one position are the same. -/
theorem eq_of_over {offset k : ℕ} {frames : List ZstdFrame} {a b : ZstdFrameRange}
    (ha : a ∈ rangesFrom offset frames) (hb : b ∈ rangesFrom offset frames)
    (hak : a.start < k ∧ k ≤ a.stop) (hbk : b.start < k ∧ k ≤ b.stop) : a = b := by
  induction frames generalizing offset with
  | nil => simp [rangesFrom] at ha
  | cons frame frames ih =>
    rw [rangesFrom, List.mem_cons] at ha hb
    have hfirst : ∀ range ∈ rangesFrom (offset + frame.bytes.length) frames,
        offset + frame.bytes.length ≤ range.start :=
      fun range hrange => (bounds_of_mem_rangesFrom hrange).1
    rcases ha with rfl | ha
    · rcases hb with rfl | hb
      · rfl
      · have hle := hfirst b hb
        simp only at hak
        omega
    · rcases hb with rfl | hb
      · have hle := hfirst a ha
        simp only at hbk
        omega
      · exact ih ha hb

theorem tornIn_eq_some_iff (frames : List ZstdFrame) (k start : ℕ) :
    tornIn 0 frames k = some start ↔ ¬IsBoundary frames k ∧
      ∃ range ∈ rangesFrom 0 frames, range.start = start ∧ range.start < k ∧ k ≤ range.stop := by
  constructor
  · intro h
    rw [tornIn, Option.map_eq_some_iff] at h
    obtain ⟨range, hfind, hstart⟩ := h
    have hmem := List.mem_of_find?_eq_some hfind
    have hover := List.find?_some hfind
    rw [Bool.and_eq_true, decide_eq_true_eq, decide_eq_true_eq] at hover
    refine ⟨?_, range, hmem, hstart, hover.1, hover.2.le⟩
    rintro (hzero | ⟨other, hother, hstop⟩)
    · omega
    · have hbounds := bounds_of_mem_rangesFrom hother
      have heq : range = other :=
        eq_of_over hmem hother ⟨hover.1, hover.2.le⟩ ⟨by omega, by omega⟩
      subst heq
      omega
  · rintro ⟨hboundary, range, hmem, hstart, hlt, hle⟩
    have hne : range.stop ≠ k := fun hstop => hboundary (.inr ⟨range, hmem, hstop⟩)
    have hover : (decide (range.start < k) && decide (k < range.stop)) = true := by
      rw [Bool.and_eq_true, decide_eq_true_eq, decide_eq_true_eq]
      omega
    cases hfind : (rangesFrom 0 frames).find? fun range =>
        range.start < k && k < range.stop with
    | none => exact absurd hover (List.find?_eq_none.mp hfind range hmem)
    | some found =>
      have hfound := List.find?_some hfind
      rw [Bool.and_eq_true, decide_eq_true_eq, decide_eq_true_eq] at hfound
      have heq : found = range := eq_of_over (List.mem_of_find?_eq_some hfind) hmem
        ⟨hfound.1, hfound.2.le⟩ ⟨hlt, hle⟩
      rw [tornIn, hfind, heq, Option.map_some, hstart]

theorem scanZstdFrames_take (frames : List ZstdFrame) {k : ℕ} (hk : k ≤ (stream frames).length)
    (maxFrames : Option ℕ) :
    ∃ scan, scanZstdFrames ((stream frames).take k) maxFrames = .ok scan ∧
      ScansTo maxFrames [] (completeIn 0 frames k) (tornIn 0 frames k) scan := by
  obtain ⟨scan, hscan, hto⟩ :=
    scanFrames_cut maxFrames frames [] (List.take_prefix k (stream frames)) []
  rw [List.nil_append, List.length_nil] at hscan
  rw [List.length_nil, Nat.zero_add, List.length_take, Nat.min_eq_left hk] at hto
  exact ⟨scan, hscan, hto⟩

theorem limited_zero (complete : List ZstdFrameRange) : limited (some 0) [] complete = complete := by
  simp [limited]

/-- A limit that is not zero returns the first frames. -/
theorem limited_pos {m : ℕ} (hm : m ≠ 0) (complete : List ZstdFrameRange) :
    limited (some m) [] complete = upTo (some m) complete := by
  have hpos : 0 < m := Nat.pos_of_ne_zero hm
  simp only [limited, upTo, List.length_nil, if_pos hpos, List.nil_append]

/-- A cut log is split at its frame boundaries, and never refused, exactly when the limit is not
zero or no frame ends before the cut. -/
theorem split_iff_limited (frames : List ZstdFrame) {k : ℕ} (hk : k ≤ (stream frames).length)
    (maxFrames : Option ℕ) :
    (∃ scan, scanZstdFrames ((stream frames).take k) maxFrames = .ok scan ∧
      SplitAt frames k maxFrames scan) ↔
    (maxFrames = some 0 → ∀ range ∈ rangesFrom 0 frames, k < range.stop) := by
  obtain ⟨scan, hscan, hto⟩ := scanZstdFrames_take frames hk maxFrames
  constructor
  · rintro ⟨scan', hscan', hsplit⟩ hzero
    rw [hscan, Except.ok.injEq] at hscan'
    subst hscan'
    have hframes := hto.frames
    have hsame := hsplit.frames_eq
    subst hzero
    rw [limited_zero] at hframes
    have hnone : completeIn 0 frames k = [] := hframes.symm.trans hsame
    rw [completeIn, List.filter_eq_nil_iff] at hnone
    intro range hrange
    have hafter := hnone range hrange
    simpa using hafter
  · intro hzero
    refine ⟨scan, hscan, ?_, ?_⟩
    · rw [hto.frames]
      cases maxFrames with
      | none => simp [limited, upTo]
      | some m =>
        by_cases hm : m = 0
        · subst hm
          have hnone : completeIn 0 frames k = [] := by
            rw [completeIn, List.filter_eq_nil_iff]
            intro range hrange
            have hafter := hzero rfl range hrange
            simpa using hafter
          rw [limited_zero, hnone, upTo, List.take_nil]
        · rw [limited_pos hm]
    · intro hfew start
      have htorn := hto.tornStart fun m hm _ => by
        rw [List.length_nil, Nat.zero_add]
        exact hfew m hm
      rw [htorn, tornIn_eq_some_iff]

/-- An empty frame: one raw block of no bytes, and no checksum. -/
def emptyFrame : ZstdFrame where
  contentSizeFlag := 0
  singleSegment := true
  checksumFlag := false
  dictionaryFlag := 0
  fields := [0]
  blocks := []
  lastBlock := ⟨.raw, 0, [], by decide, rfl⟩
  checksum := []
  fields_length := rfl
  checksum_length := rfl

/-- The first of two frames is read under a limit of one, though the cut is in the second. -/
theorem split_one_frame :
    ∃ scan, scanZstdFrames ((stream [emptyFrame, emptyFrame]).take 12) (some 1) = .ok scan ∧
      SplitAt [emptyFrame, emptyFrame] 12 (some 1) scan := by
  have hk : 12 ≤ (stream [emptyFrame, emptyFrame]).length := by decide
  exact (split_iff_limited _ hk (some 1)).mpr fun h => absurd h (by decide)

/-- A limit of zero frames returns the frame. -/
theorem limit_zero_ignored :
    ¬∃ scan, scanZstdFrames ((stream [emptyFrame]).take 9) (some 0) = .ok scan ∧
      SplitAt [emptyFrame] 9 (some 0) scan := by
  rintro ⟨scan, hscan, hsplit⟩
  have hk : 9 ≤ (stream [emptyFrame]).length := by decide
  obtain ⟨found, hfound, hto⟩ := scanZstdFrames_take [emptyFrame] hk (some 0)
  rw [hscan, Except.ok.injEq] at hfound
  subst hfound
  have hframes := hto.frames
  have hnone := hsplit.frames_eq
  rw [limited_zero] at hframes
  rw [hframes] at hnone
  exact absurd hnone (by decide)

end Zstd

end TianmaCoder
