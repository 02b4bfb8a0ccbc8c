import TaggedParcel.Proofs.Frame.Tiling

set_option relaxedAutoImplicit false
set_option autoImplicit false

/-!
# Where a scan finds too many levels

A scan that gives up for the depth of the objects has followed a chain of object words through the
buffer: each word stands where the payload of a field starts, in the frame that the word before it
opens. The scan looks for the word in the whole buffer. So behind the header of a field that is
too short for a word, the word is found that the next fields make.

## Main definitions

* `FieldHeader.Among` — the headers that a walk over the fields of a frame meets.
* `ObjectChain` — chains of object words, from frame to frame.

## Main results

* `ObjectLayout.scanField_crossed` — a limit is crossed only behind an object word.
* `ObjectLayout.scanFrame_chain` — where the levels run out, there is a chain of as many words.
* `ObjectLayout.scan_depth_chain` — the chain behind a failure for the depth of the objects.
* `ObjectLayout.scan_depth_unfounded` — the word may stand outside the field.
-/

namespace TaggedParcel

/-- A header that a walk meets which starts at a position of a buffer and passes from field to
field of a frame that ends at `stop`. -/
inductive FieldHeader.Among (bytes : Array UInt8) (stop : Nat) (header : FieldHeader) :
    Nat → Prop where
  /-- The header stands at the position. -/
  | here {pos : Nat}
    (hread : Read.fieldHeader ⟨bytes, pos, stop⟩ =
      .ok header ⟨bytes, header.payloadStart, stop⟩) : Among bytes stop header pos
  /-- The header is met behind the field at the position. -/
  | behind {pos : Nat} {first : FieldHeader}
    (hread : Read.fieldHeader ⟨bytes, pos, stop⟩ = .ok first ⟨bytes, first.payloadStart, stop⟩)
    (hstop : first.stop ≤ stop)
    (hrest : Among bytes stop header first.stop) : Among bytes stop header pos

/-- The first header that a walk meets is the one at its position. -/
lemma FieldHeader.Among.eq_or_behind {bytes : Array UInt8} {stop pos : Nat}
    {header first : FieldHeader} {r : Reader} (h : header.Among bytes stop pos)
    (hread : Read.fieldHeader ⟨bytes, pos, stop⟩ = .ok first r) :
    header = first ∨ header.Among bytes stop first.stop := by
  cases h with
  | here hhere =>
    cases hread.symm.trans hhere
    exact .inl rfl
  | behind hfirst _ hrest =>
    cases hread.symm.trans hfirst
    exact .inr hrest

/-- A chain of so many object words behind a position, inside a limit. An object starts at the
position, with either form of header. In its frame there is a field with a size word that is at
least `least`, and where the payload of this field starts, there is the first word of the chain.
The rest of the chain is behind that word, inside the field. -/
inductive ObjectChain (bytes : Array UInt8) (least : Nat) : (words start limit : Nat) → Prop where
  /-- Behind the last word nothing has to be. -/
  | nil {start limit : Nat} : ObjectChain bytes least 0 start limit
  /-- A field of the object at the position leads to a word. -/
  | cons {words start limit stop first : Nat} {header : FieldHeader}
    (hobject : Read.objectHeader ⟨bytes, start, limit⟩ = .ok stop ⟨bytes, first, limit⟩)
    (hamong : header.Among bytes stop first)
    (hformat : header.format = .delimited)
    (hleast : least ≤ header.size)
    (hword : ObjectLayout.startsObject bytes header.payloadStart)
    (hrest : ObjectChain bytes least words header.payloadStart (min header.stop stop)) :
    ObjectChain bytes least (words + 1) start limit

namespace ObjectLayout

variable {r : Reader} {inside : Array UInt8 → ObjectLayout → Prop}
  {walk : Read FrameError ObjectLayout}

/-- Passing over a payload crosses no limit of the three. -/
lemma skipField_ne_limit {header : FieldHeader} {e : LimitExceeded} {r' : Reader} :
    Read.skipField header r ≠ .error (.limit e) r' := by
  unfold Read.skipField
  rw [bind_apply, Read.boundedStop_apply]
  by_cases hstop : header.stop > r.limit
  · rw [if_pos hstop]
    simp
  · rw [if_neg hstop]
    show Read.mapError FrameError.buffer (Read.seek header.stop) r ≠ _
    simp [Read.mapError, Read.seek, hstop]

/-- A payload that is passed over ends before the limit, and reading goes on there. -/
lemma skipField_ok {header : FieldHeader} {r' : Reader} (h : Read.skipField header r = .ok () r') :
    header.stop ≤ r.limit ∧ r' = { r with pos := header.stop } := by
  unfold Read.skipField at h
  rw [bind_apply, Read.boundedStop_apply] at h
  by_cases hstop : header.stop > r.limit
  · rw [if_pos hstop] at h
    cases h
  · rw [if_neg hstop] at h
    have hseek : Read.mapError FrameError.buffer (Read.seek header.stop) r = .ok () r' := h
    simp only [Read.mapError, Read.seek, if_neg hstop, EStateM.Result.ok.injEq, true_and] at hseek
    exact ⟨by omega, hseek.symm⟩

/-- A trial fails only where the walk inside crosses a limit. -/
lemma probe_error {stop : Nat} {e : FrameError} {r' : Reader}
    (h : probe walk stop r = .error e r') :
    ∃ crossed r'', e = .limit crossed ∧ walk { r with limit := stop } = .error e r'' := by
  unfold probe Read.within at h
  split at h
  · cases h
  · rename_i hrun
    cases h
    split at hrun
    · cases hrun
    · split at hrun
      · cases hrun
      · cases hwalk : walk { r with limit := stop } with
        | ok layout r₁ => simp [hwalk] at hrun
        | error e' r₁ =>
          simp only [hwalk, EStateM.Result.error.injEq] at hrun
          exact ⟨_, r₁, rfl, by rw [hrun.1]⟩
  · cases h

/-- A header that is read leaves the reader where its payload starts. -/
lemma fieldHeader_at {header : FieldHeader} {n : Nat} (hstart : header.payloadStart = r.pos + n)
    (hread : Read.fieldHeader r = .ok header (r.advance n)) :
    Read.fieldHeader r = .ok header ⟨r.bytes, header.payloadStart, r.limit⟩ := by
  rw [hread, hstart]
  rfl

/-- A field that is scanned is passed over. -/
lemma scanField_ok (hwalk : Covers inside walk) (hr : r.Sound) {field : FieldLayout} {r' : Reader}
    (h : scanField walk r.limit r = .ok field r') :
    ∃ header : FieldHeader,
      Read.fieldHeader r = .ok header ⟨r.bytes, header.payloadStart, r.limit⟩ ∧
      r.pos ≤ header.stop ∧ header.stop ≤ r.limit ∧ r' = ⟨r.bytes, header.stop, r.limit⟩ := by
  rcases Read.fieldHeader_cases hr with ⟨header, n, h4, hn, hstart, hread⟩ | ⟨c, n, -, hread⟩
  · have hle := FieldHeader.payloadStart_le_stop hr hn hstart
    rw [scanField_apply walk r.limit hread] at h
    obtain ⟨nested, r₁, hnested, h⟩ := bind_ok h
    obtain ⟨⟨⟩, r₂, hskip, h⟩ := bind_ok h
    cases h
    -- the trial neither leaves the buffer nor changes the limit in force
    obtain ⟨hbytes, hlimit⟩ : r₁.bytes = r.bytes ∧ r₁.limit = r.limit := by
      split at hnested
      · have hlimit := Reader.limit_eq hr
        rcases probe_cases hwalk (hr.advance hn)
          (show (r.advance n).pos ≤ min header.stop r.limit by rw [Reader.advance_pos]; omega) with
          ⟨_, m, -, -, hprobe, -⟩ | ⟨e, m, -, hprobe⟩
        · rw [hprobe] at hnested
          cases hnested
          exact ⟨rfl, rfl⟩
        · rw [hprobe] at hnested
          cases hnested
      · cases hnested
        exact ⟨rfl, rfl⟩
    obtain ⟨hstop, rfl⟩ := skipField_ok hskip
    exact ⟨header, fieldHeader_at hstart hread, by omega, by omega, by rw [hbytes, hlimit]⟩
  · rw [scanField_error walk r.limit hread] at h
    cases h

/-- Where a limit is crossed in the scan of a field, its payload starts with an object word, and
the walk that is tried there crosses the limit. -/
lemma scanField_crossed (hr : r.Sound) {e : LimitExceeded} {r' : Reader}
    (h : scanField walk r.limit r = .error (.limit e) r') :
    ∃ header : FieldHeader,
      Read.fieldHeader r = .ok header ⟨r.bytes, header.payloadStart, r.limit⟩ ∧
      header.format = .delimited ∧ startsObject r.bytes header.payloadStart ∧
      header.payloadStart ≤ min header.stop r.limit ∧
      ∃ r'', walk ⟨r.bytes, header.payloadStart, min header.stop r.limit⟩ =
        .error (.limit e) r'' := by
  rcases Read.fieldHeader_cases hr with ⟨header, n, -, hn, hstart, hread⟩ | ⟨c, n, -, hread⟩
  · have hle := FieldHeader.payloadStart_le_stop hr hn hstart
    have hlimit := Reader.limit_eq hr
    rw [scanField_apply walk r.limit hread] at h
    rcases bind_error h with hnested | ⟨nested, r₁, -, hrest⟩
    · by_cases hobject : header.format = .delimited ∧ startsObject r.bytes header.payloadStart
      · rw [if_pos hobject] at hnested
        obtain ⟨_, r₂, -, hrun⟩ := probe_error hnested
        refine ⟨header, fieldHeader_at hstart hread, hobject.1, hobject.2, by omega, r₂, ?_⟩
        rw [hstart]
        exact hrun
      · rw [if_neg hobject] at hnested
        cases hnested
    · rcases bind_error hrest with hskip | ⟨_, _, -, hanswer⟩
      · exact absurd hskip skipField_ne_limit
      · cases hanswer
  · rw [scanField_error walk r.limit hread] at h
    cases h

/-- Where the walk over the fields of a frame finds too many levels, one of the fields that it
meets starts with an object word, and the walk that is tried there finds too many levels. -/
lemma scanFields_crossed (hwalk : Covers inside walk) (limits : Limits) (fuel count : Nat)
    (done : List FieldLayout) (hr : r.Sound) {e : LimitExceeded} {r' : Reader}
    (hkind : e.kind = .depth)
    (h : scanFields limits walk r.limit fuel count done r = .error (.limit e) r') :
    ∃ header : FieldHeader, header.Among r.bytes r.limit r.pos ∧
      header.format = .delimited ∧ startsObject r.bytes header.payloadStart ∧
      header.payloadStart ≤ min header.stop r.limit ∧
      ∃ r'', walk ⟨r.bytes, header.payloadStart, min header.stop r.limit⟩ =
        .error (.limit e) r'' := by
  induction fuel generalizing r count done with
  | zero => cases h
  | succ fuel ih =>
    by_cases hpos : r.pos < r.limit
    · by_cases hcount : count < limits.maxElements
      · rw [scanFields_step limits walk fuel done hpos hcount] at h
        cases hfield : scanField walk r.limit r with
        | ok field r₁ =>
          -- the failure is behind this field
          obtain ⟨first, hread, hle, hstop, rfl⟩ := scanField_ok hwalk hr hfield
          rw [hfield] at h
          obtain ⟨header, hamong, hrest⟩ :=
            ih (r := ⟨r.bytes, first.stop, r.limit⟩) (count + 1) (field :: done)
              ⟨hstop, hr.limit_le, hr.size_le⟩ h
          exact ⟨header, .behind hread hstop hamong, hrest⟩
        | error e' r₁ =>
          rw [hfield] at h
          cases h
          obtain ⟨header, hread, hrest⟩ := scanField_crossed hr hfield
          exact ⟨header, .here hread, hrest⟩
      · rw [scanFields_full limits walk fuel done hpos (by omega)] at h
        cases h
        cases hkind
    · rw [scanFields_end limits walk _ count done (by have := hr.pos_le; omega)] at h
      cases h

/-- Where the walk over a frame finds too many levels, a chain of as many object words as there
were levels left is behind the position. -/
theorem scanFrame_chain (limits : Limits) (levels : Nat) (hr : r.Sound) {e : LimitExceeded}
    {r' : Reader} (hkind : e.kind = .depth)
    (h : scanFrame limits levels r = .error (.limit e) r') :
    e = .depth limits ∧ ObjectChain r.bytes 0 levels r.pos r.limit := by
  induction levels generalizing r r' with
  | zero =>
    cases h
    exact ⟨rfl, .nil⟩
  | succ levels ih =>
    rw [scanFrame_eq] at h
    rcases Read.objectHeader_cases hr with ⟨n, size, h4, hsize, hread⟩ | ⟨c, n, hn, hread⟩
    · have hn : n ≤ r.ahead.length := by omega
      have hroom : size ≤ (r.advance n).ahead.length := by
        rw [Reader.ahead_advance, List.length_drop]
        omega
      rw [hread] at h
      rcases bind_error h with hposition | ⟨start, r₁, hposition, h⟩
      · cases hposition
      cases hposition
      rcases bind_error h with hwithin | ⟨fields, r₂, -, hanswer⟩
      · have hnarrow := Read.within_narrow FrameError.buffer
          (scanFields limits (scanFrame limits levels) (r.pos + n + size)
            (r.pos + n + size - (r.pos + n)) 0 []) (hr.advance hn) hroom
        rw [Reader.advance_pos] at hnarrow
        rw [Reader.advance_pos, hnarrow] at hwithin
        cases hfields : scanFields limits (scanFrame limits levels) (r.pos + n + size)
            (r.pos + n + size - (r.pos + n)) 0 [] ((r.advance n).narrow size) with
        | ok fields r₃ =>
          rw [hfields] at hwithin
          cases hwithin
        | error e' r₃ =>
          rw [hfields] at hwithin
          cases hwithin
          obtain ⟨header, hamong, hformat, hword, hle, r₄, htried⟩ :=
            scanFields_crossed (scanFrame_covers limits levels) limits _ 0 []
              ((hr.advance hn).narrow hroom) hkind hfields
          have hinside : Reader.Sound
              ⟨r.bytes, header.payloadStart, min header.stop (r.pos + n + size)⟩ :=
            ⟨hle, Nat.le_trans (Nat.min_le_right _ _) ((hr.advance hn).narrow hroom).limit_le,
              hr.size_le⟩
          obtain ⟨heq, hchain⟩ := ih hinside htried
          exact ⟨heq, .cons hread hamong hformat (Nat.zero_le _) hword hchain⟩
      · cases hanswer
    · rw [hread] at h
      cases h

/-- A scan fails for the depth of the objects only where it has followed a chain of object words:
behind the header at the start of the buffer, there are as many words as levels are allowed.

**Proof sketch.** A walk from a level to the next is taken only where an object word stands behind
the header of a field with a size word, so the level that is one too many has a word for each level
around it. By induction over the levels that are left, the words make a chain: `scanFields_crossed`
finds the field, among those of the frame, whose trial failed. -/
theorem scan_depth_chain {bytes : Array UInt8} (hsize : bytes.size ≤ maxBuffer) {limits : Limits}
    {e : LimitExceeded} (hkind : e.kind = .depth) (h : scan bytes limits = .error (.limit e)) :
    e = .depth limits ∧ ObjectChain bytes 0 limits.maxDepth 0 bytes.size := by
  unfold scan at h
  split at h
  · cases h
    cases hkind
  · cases hrun : scanFrame limits limits.maxDepth (.ofBytes bytes) with
    | ok layout r₁ =>
      rw [hrun] at h
      cases h
    | error e' r₁ =>
      rw [hrun] at h
      cases h
      exact scanFrame_chain limits limits.maxDepth (Reader.sound_ofBytes hsize) hkind hrun

end ObjectLayout

namespace Sample

/-- A frame with two empty fields. The header of the second one is an object word, and it stands
where the payload of the first one starts. -/
def adjacentFrame : Array UInt8 :=
  #[0x45, 0x4F, 0xFF, 0xFF, 16, 0, 0, 0,  1, 0, 0xFF, 0xFF, 0, 0, 0, 0,
    0x45, 0x4F, 0xFF, 0xFF, 0, 0, 0, 0]

/-- The layout of `adjacentFrame`, in which no payload holds a byte. -/
def adjacentLayout : ObjectLayout :=
  ⟨0, 16, 24, [⟨1, 8, 16, 0, .delimited, none⟩, ⟨objectMagic, 16, 24, 0, .delimited, none⟩]⟩

end Sample

namespace ObjectLayout

/-- In the sample with a frame in a field, one level is too few, and the word of the frame inside
is the chain. -/
theorem scan_depth_chain_nested :
    Sample.nestedFrame.size ≤ maxBuffer ∧
      scan Sample.nestedFrame ⟨1, 1, 22⟩ = .error (.limit ⟨.depth, 1, 2⟩) ∧
      ObjectChain Sample.nestedFrame 0 1 0 Sample.nestedFrame.size := by
  have hsize : Sample.nestedFrame.size ≤ maxBuffer := by decide
  have hscan : scan Sample.nestedFrame ⟨1, 1, 22⟩ = .error (.limit ⟨.depth, 1, 2⟩) := rfl
  exact ⟨hsize, hscan, (scan_depth_chain hsize rfl hscan).2⟩

/-- The walk over the fields of the sample meets no header of a field with a byte in it. -/
lemma size_of_among_adjacent {header : FieldHeader}
    (h : header.Among Sample.adjacentFrame 24 8) : header.size = 0 := by
  have hfirst : Read.fieldHeader ⟨Sample.adjacentFrame, 8, 24⟩ =
      .ok ⟨0xFFFF0001, 1, 0, .delimited, 16⟩ ⟨Sample.adjacentFrame, 16, 24⟩ := rfl
  have hsecond : Read.fieldHeader ⟨Sample.adjacentFrame, 16, 24⟩ =
      .ok ⟨objectWord, objectMagic, 0, .delimited, 24⟩ ⟨Sample.adjacentFrame, 24, 24⟩ := rfl
  have hend : Read.fieldHeader ⟨Sample.adjacentFrame, 24, 24⟩ =
      .error (.corruption (.overread 28 24)) ⟨Sample.adjacentFrame, 24, 24⟩ := rfl
  rcases h.eq_or_behind hfirst with rfl | h
  · rfl
  rcases h.eq_or_behind hsecond with rfl | h
  · rfl
  cases h with
  | here hread => cases hend.symm.trans hread
  | behind hread => cases hend.symm.trans hread

/-- The word of a chain may stand outside the field that leads to it. In the sample no field has
room for a word, and a scan with room for two levels finds no object inside. With room for one it
fails for the depth of the objects. -/
theorem scan_depth_unfounded :
    scan Sample.adjacentFrame ⟨2, 2, 24⟩ = .ok Sample.adjacentLayout ∧
      scan Sample.adjacentFrame ⟨1, 2, 24⟩ = .error (.limit ⟨.depth, 1, 2⟩) ∧
      ¬ ObjectChain Sample.adjacentFrame 4 1 0 24 := by
  refine ⟨rfl, rfl, fun hchain => ?_⟩
  cases hchain with
  | cons hobject hamong _ hleast _ _ =>
    have hread : Read.objectHeader ⟨Sample.adjacentFrame, 0, 24⟩ =
        .ok 24 ⟨Sample.adjacentFrame, 8, 24⟩ := rfl
    cases hread.symm.trans hobject
    have hsize := size_of_among_adjacent hamong
    omega

end ObjectLayout

end TaggedParcel
