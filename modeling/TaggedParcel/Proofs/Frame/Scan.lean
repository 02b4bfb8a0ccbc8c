import TaggedParcel.Frame.Layout
import TaggedParcel.Proofs.Frame.Outline

set_option relaxedAutoImplicit false
set_option autoImplicit false

/-!
# Scanning is outlining

A scan looks into payloads for objects, and forgets whatever goes wrong there. So where no limit
is in reach, a scan finds the fields that the outline of the frame has, and is corrupt just where
the outline is.

## Main definitions

* `FieldHeader.summary`, `FieldLayout.summary` — what a header and a layout say of a field.
* `ObjectLayout.Follows` — a walk that ends as the outline does.

## Main results

* `ObjectLayout.scanFields_follows` — the fields of a frame, found by a scan.
* `ObjectLayout.scanFrame_follows` — a scan of a frame, if there are levels for all its bytes.
* `ObjectLayout.scan_cases` — the scan of a buffer without limits.
-/

namespace TaggedParcel

/-- Which field a header is of, and where its payload lies. -/
def FieldHeader.summary (h : FieldHeader) : UInt16 × Nat × Nat × FieldFormat :=
  (h.id, h.payloadStart, h.size, h.format)

/-- Which field a layout is of, and where its payload lies. -/
def FieldLayout.summary (f : FieldLayout) : UInt16 × Nat × Nat × FieldFormat :=
  (f.id, f.payloadOffset, f.size, f.format)

namespace ObjectLayout

variable {r : Reader}

/-- A walk from a reader follows the outline: it finds the fields of the outline and stops behind
them, or it is corrupt in the same way. -/
def Follows (walk : Read FrameError ObjectLayout) (r : Reader) : Prop :=
  (∃ frame layout, Read.outline r = .ok frame (r.advance (frame.stop - r.pos)) ∧
    walk r = .ok layout (r.advance (frame.stop - r.pos)) ∧
    layout.stop = frame.stop ∧
    layout.fields.map FieldLayout.summary = frame.headers.map FieldHeader.summary) ∨
  ∃ c n, n ≤ r.ahead.length ∧ (∃ r', Read.outline r = .error (.corruption c) r') ∧
    walk r = .error (.corruption c) (r.advance n)

/-- A walk that follows the outline moves forward, and crosses no limit. -/
lemma Follows.moves {walk : Read FrameError ObjectLayout} (hr : r.Sound) (h : Follows walk r) :
    (∃ layout n, n ≤ r.ahead.length ∧ walk r = .ok layout (r.advance n)) ∨
      ∃ c n, n ≤ r.ahead.length ∧ walk r = .error (.corruption c) (r.advance n) := by
  have hlimit := Reader.limit_eq hr
  rcases h with ⟨frame, layout, hout, hwalk, -, -⟩ | ⟨c, n, hn, -, hwalk⟩
  · refine .inl ⟨layout, _, ?_, hwalk⟩
    rcases Read.outline_cases hr with ⟨frame', start, hout', -, -, hstop, -⟩ | ⟨c, n, -, hout'⟩
    · rw [hout] at hout'
      cases hout'
      omega
    · rw [hout] at hout'
      cases hout'
  · exact .inr ⟨c, n, hn, hwalk⟩

/-- A probe never fails where the walk inside crosses no limit, and it stays before `stop`. -/
lemma probe_moves {walk : Read FrameError ObjectLayout} {bound : Nat}
    (hwalk : ∀ r : Reader, r.Sound → r.ahead.length ≤ bound → Follows walk r) (hr : r.Sound)
    (hbound : r.ahead.length ≤ bound) {stop : Nat} (hstop : r.pos ≤ stop) :
    ∃ nested n, n ≤ r.ahead.length ∧ r.pos + n ≤ stop ∧
      probe walk stop r = .ok nested (r.advance n) := by
  obtain ⟨size, rfl⟩ := Nat.exists_eq_add_of_le hstop
  unfold probe
  by_cases hsize : size ≤ r.ahead.length
  · have hnarrow := Reader.ahead_narrow hr hsize
    have hlength : (r.narrow size).ahead.length = size := by
      rw [hnarrow, List.length_take, Nat.min_eq_left hsize]
    rw [Read.within_narrow FrameError.buffer walk hr hsize]
    rcases (hwalk (r.narrow size) (hr.narrow hsize) (by omega)).moves (hr.narrow hsize)
      with ⟨layout, n, hn, hread⟩ | ⟨c, n, hn, hread⟩
    · rw [hread]
      exact ⟨some layout, n, by omega, by omega, rfl⟩
    · rw [hread]
      exact ⟨none, n, by omega, by omega, rfl⟩
  · rw [Read.within_refused FrameError.buffer walk hr (by omega)]
    exact ⟨none, 0, Nat.zero_le _, by omega, rfl⟩

/-- Behind its header a field is looked into, if an object word stands there, and passed over. -/
lemma scanField_apply (walk : Read FrameError ObjectLayout) (stop : Nat) {header : FieldHeader}
    {n : Nat} (hread : Read.fieldHeader r = .ok header (r.advance n)) :
    scanField walk stop r =
      ((if header.format = .delimited ∧ startsObject r.bytes header.payloadStart then
          probe walk (min header.stop stop)
        else pure none) >>= fun nested => Read.skipField header >>= fun _ =>
          pure ⟨header.id, r.pos, header.payloadStart, header.size, header.format, nested⟩ :
        Read FrameError FieldLayout) (r.advance n) := by
  unfold scanField
  rw [bind_apply]
  dsimp only [Read.position]
  rw [bind_apply, hread]
  show (if header.format = .delimited ∧ startsObject r.bytes header.payloadStart then _
    else _ : Read FrameError FieldLayout) (r.advance n) = _
  split <;> rfl

/-- Without a header there is no field. -/
lemma scanField_error (walk : Read FrameError ObjectLayout) (stop : Nat) {e : FrameError}
    {r' : Reader} (hread : Read.fieldHeader r = .error e r') :
    scanField walk stop r = .error e r' := by
  unfold scanField
  rw [bind_apply]
  dsimp only [Read.position]
  rw [bind_apply, hread]

/-- A field is scanned as its header says, whatever is in it. -/
lemma scanField_eq {walk : Read FrameError ObjectLayout} {bound : Nat}
    (hwalk : ∀ r : Reader, r.Sound → r.ahead.length ≤ bound → Follows walk r) (hr : r.Sound)
    (hbound : r.ahead.length ≤ bound + 4) {header : FieldHeader} {n : Nat} (h4 : 4 ≤ n)
    (hn : n ≤ r.ahead.length) (hstart : header.payloadStart = r.pos + n)
    (hread : Read.fieldHeader r = .ok header (r.advance n)) :
    if header.stop > r.limit then
      ∃ m, m ≤ r.ahead.length ∧ scanField walk r.limit r =
        .error (.corruption (.overread header.stop r.limit)) (r.advance m)
    else
      ∃ field : FieldLayout, field.summary = header.summary ∧
        scanField walk r.limit r = .ok field (r.advance (header.stop - r.pos)) := by
  have hlimit := Reader.limit_eq hr
  have hle := FieldHeader.payloadStart_le_stop hr hn hstart
  -- the part between the header and the end of the field
  have hprobe : ∃ nested m, n + m ≤ r.ahead.length ∧ r.pos + n + m ≤ header.stop ∧
      (if header.format = .delimited ∧ startsObject r.bytes header.payloadStart then
          probe walk (min header.stop r.limit)
        else pure none) (r.advance n) = .ok nested (r.advance (n + m)) := by
    have hadvance := hr.advance hn
    have hlength : (r.advance n).ahead.length = r.ahead.length - n := by
      rw [Reader.ahead_advance, List.length_drop]
    split
    · obtain ⟨nested, m, hm, hstop, hnested⟩ := probe_moves hwalk hadvance (by omega)
        (show (r.advance n).pos ≤ min header.stop r.limit by rw [Reader.advance_pos]; omega)
      rw [Reader.advance_pos] at hstop
      rw [Reader.advance_advance] at hnested
      exact ⟨nested, m, by omega, by omega, hnested⟩
    · exact ⟨none, 0, hn, by omega, rfl⟩
  obtain ⟨nested, m, hm, hstop, hnested⟩ := hprobe
  rw [scanField_apply walk r.limit hread, bind_apply, hnested]
  dsimp only
  rw [bind_apply, Read.skipField_apply (by rw [Reader.advance_pos]; omega),
    Reader.advance_limit]
  by_cases hover : header.stop > r.limit
  · rw [if_pos hover, if_pos hover]
    exact ⟨n + m, hm, rfl⟩
  · rw [if_neg hover, if_neg hover, Reader.advance_advance, Reader.advance_pos,
      show n + m + (header.stop - (r.pos + (n + m))) = header.stop - r.pos by omega]
    exact ⟨_, rfl, rfl⟩

/-- Before the end of a frame one more field is scanned, if the limits allow one more. -/
lemma scanFields_step (limits : Limits) (walk : Read FrameError ObjectLayout) (fuel : Nat)
    {count : Nat} (done : List FieldLayout) (hpos : r.pos < r.limit)
    (hcount : count < limits.maxElements) :
    scanFields limits walk r.limit (fuel + 1) count done r =
      match scanField walk r.limit r with
      | .ok field r' => scanFields limits walk r.limit fuel (count + 1) (field :: done) r'
      | .error e r' => .error e r' := by
  show (if r.pos < r.limit then _ else _ : Read FrameError (List FieldLayout)) r = _
  rw [if_pos hpos, if_neg (by omega)]
  dsimp only
  rw [bind_apply]
  cases scanField walk r.limit r <;> rfl

/-- At the end of a frame a scan answers the fields that it found. -/
lemma scanFields_end (limits : Limits) (walk : Read FrameError ObjectLayout) (fuel count : Nat)
    (done : List FieldLayout) (hpos : r.pos = r.limit) :
    scanFields limits walk r.limit fuel count done r = .ok done.reverse r := by
  cases fuel with
  | zero => rfl
  | succ fuel =>
    show (if r.pos < r.limit then _ else _ : Read FrameError (List FieldLayout)) r = _
    rw [if_neg (by omega)]
    rfl

/-- A scan refuses a field more than the limits allow. -/
lemma scanFields_full (limits : Limits) (walk : Read FrameError ObjectLayout) (fuel : Nat)
    {count : Nat} (done : List FieldLayout) (hpos : r.pos < r.limit)
    (hcount : limits.maxElements ≤ count) :
    scanFields limits walk r.limit (fuel + 1) count done r =
      .error (.limit ⟨.elements, limits.maxElements, count + 1⟩) r := by
  show (if r.pos < r.limit then _ else _ : Read FrameError (List FieldLayout)) r = _
  rw [if_pos hpos, if_pos hcount]
  rfl

/-- The fields of a frame are found by a scan, behind those found so far. -/
theorem scanFields_follows {limits : Limits} {walk : Read FrameError ObjectLayout} {bound : Nat}
    (hwalk : ∀ r : Reader, r.Sound → r.ahead.length ≤ bound → Follows walk r) (fuel count : Nat)
    (done : List FieldLayout) (hr : r.Sound) (hbound : r.ahead.length ≤ bound + 4)
    (hfuel : r.ahead.length ≤ fuel) (hcount : count + r.ahead.length < limits.maxElements) :
    (∃ headers fields,
      Read.fieldHeaders r.limit fuel r = .ok headers (r.advance r.ahead.length) ∧
      scanFields limits walk r.limit fuel count done r =
        .ok (done.reverse ++ fields) (r.advance r.ahead.length) ∧
      fields.map FieldLayout.summary = headers.map FieldHeader.summary) ∨
    ∃ c n, n ≤ r.ahead.length ∧
      (∃ r', Read.fieldHeaders r.limit fuel r = .error (.corruption c) r') ∧
      scanFields limits walk r.limit fuel count done r =
        .error (.corruption c) (r.advance n) := by
  induction fuel generalizing r count done with
  | zero =>
    have hlimit := Reader.limit_eq hr
    refine .inl ⟨[], [], ?_, ?_, rfl⟩
    · rw [show r.ahead.length = 0 by omega]
      rfl
    · rw [show r.ahead.length = 0 by omega, List.append_nil]
      rfl
  | succ fuel ih =>
    have hlimit := Reader.limit_eq hr
    by_cases hpos : r.pos < r.limit
    · have hscan := scanFields_step limits walk fuel done hpos
        (show count < limits.maxElements by omega)
      rcases Read.fieldHeaders_step fuel hr hpos with
        ⟨header, n, h4, hn, hstart, hread, hrest⟩ | ⟨c, n, hn, hread, hstep⟩
      · have hfield := scanField_eq hwalk hr hbound h4 hn hstart hread
        have hle := FieldHeader.payloadStart_le_stop hr hn hstart
        rcases hrest with ⟨hstop, hstep⟩ | ⟨hstop, hstep⟩
        · -- the next field is at the declared end of this one
          rw [if_neg (by omega)] at hfield
          obtain ⟨field, hsummary, hfield⟩ := hfield
          have hsize : header.stop - r.pos ≤ r.ahead.length := by omega
          have hlength : (r.advance (header.stop - r.pos)).ahead.length =
              r.ahead.length - (header.stop - r.pos) := by
            rw [Reader.ahead_advance, List.length_drop]
          have hnext := ih (count + 1) (field :: done) (hr.advance hsize) (by omega) (by omega)
            (by omega)
          rw [Reader.advance_limit, Reader.advance_advance, hlength,
            Nat.add_sub_cancel' hsize] at hnext
          rcases hnext with ⟨headers, fields, hheaders, hfields, hmap⟩ |
            ⟨c, m, hm, ⟨r', hheaders⟩, hfields⟩
          · refine .inl ⟨header :: headers, field :: fields, ?_, ?_, ?_⟩
            · rw [hstep, hheaders]
            · rw [hscan, hfield]
              dsimp only
              rw [hfields, List.reverse_cons, List.append_assoc, List.singleton_append]
            · rw [List.map_cons, List.map_cons, hsummary, hmap]
          · refine .inr ⟨c, header.stop - r.pos + m, by omega, ⟨r', ?_⟩, ?_⟩
            · rw [hstep, hheaders]
            · rw [hscan, hfield]
              dsimp only
              rw [hfields, Reader.advance_advance]
        · rw [if_pos hstop] at hfield
          obtain ⟨m, hm, hfield⟩ := hfield
          refine .inr ⟨_, m, hm, ⟨_, hstep⟩, ?_⟩
          rw [hscan, hfield]
      · refine .inr ⟨c, n, hn, ⟨_, hstep⟩, ?_⟩
        rw [hscan, scanField_error walk r.limit hread]
    · have hend : r.pos = r.limit := by omega
      rw [Read.fieldHeaders_end _ hend, scanFields_end limits walk _ count done hend,
        show r.ahead.length = 0 by omega]
      refine .inl ⟨[], [], rfl, ?_, rfl⟩
      rw [List.append_nil, Reader.advance_zero]

/-- A frame is scanned between its header and the end that the header promises. -/
lemma scanFrame_eq (limits : Limits) (levels : Nat) (r : Reader) :
    scanFrame limits (levels + 1) r =
      match Read.objectHeader r with
      | .ok stop r' =>
        (do
          let start ← Read.position
          let fields ← Read.within .buffer stop
            (scanFields limits (scanFrame limits levels) stop (stop - start) 0 [])
          return ⟨r.pos, stop - start, stop, fields⟩ : Read FrameError ObjectLayout) r'
      | .error e r' => .error e r' := by
  show (Read.position >>= fun offset => _) r = _
  rw [bind_apply]
  simp only [Read.position]
  rw [bind_apply]
  cases Read.objectHeader r <;> rfl

/-- Where neither the depth nor the number of fields is in reach, a scan follows the outline. -/
theorem scanFrame_follows {limits : Limits} (levels : Nat) (hr : r.Sound)
    (hlevels : r.ahead.length < levels) (helements : r.ahead.length < limits.maxElements) :
    Follows (scanFrame limits levels) r := by
  induction levels generalizing r with
  | zero => omega
  | succ levels ih =>
    rw [Follows, scanFrame_eq]
    rcases Read.objectHeader_cases hr with ⟨n, size, h4, hsize, hread⟩ | ⟨c, n, hn, hread⟩
    · have hlimit := Reader.limit_eq hr
      have hn : n ≤ r.ahead.length := by omega
      have hroom : size ≤ (r.advance n).ahead.length := by
        rw [Reader.ahead_advance, List.length_drop]
        omega
      have hlength : ((r.advance n).narrow size).ahead.length = size := by
        rw [Reader.ahead_narrow (hr.advance hn) hroom, List.length_take, Nat.min_eq_left hroom]
      have hwithin := Read.within_narrow FrameError.buffer
        (scanFields limits (scanFrame limits levels) (r.pos + n + size) size 0 [])
        (hr.advance hn) hroom
      -- an object inside a payload has a level less, and is shorter by a header
      have hwalk : ∀ r : Reader, r.Sound → r.ahead.length ≤ min levels limits.maxElements - 1 →
          Follows (scanFrame limits levels) r :=
        fun r hr hbound => ih hr (by omega) (by omega)
      have hfields := scanFields_follows hwalk size 0 [] ((hr.advance hn).narrow hroom)
        (by omega) (by omega)
        (show 0 + ((r.advance n).narrow size).ahead.length < limits.maxElements by omega)
      rw [Reader.narrow_limit, Reader.advance_pos, hlength] at hfields
      rw [Reader.advance_pos] at hwithin
      rw [Read.outline_eq hr hsize hread, hread]
      dsimp only
      rw [bind_apply]
      simp only [Read.position, Reader.advance_pos, Nat.add_sub_cancel_left]
      rw [bind_apply, hwithin]
      rcases hfields with ⟨headers, fields, hheaders, hfields, hmap⟩ |
        ⟨c, m, hm, ⟨r', hheaders⟩, hfields⟩
      · rw [hheaders, hfields]
        refine .inl ⟨⟨r.pos + n + size, headers⟩, ⟨r.pos, size, r.pos + n + size, fields⟩,
          ?_, ?_, rfl, hmap⟩
        · simp only [Reader.advance, Reader.narrow, Nat.add_assoc, Nat.add_sub_cancel_left]
        · simp only [Reader.advance, Reader.narrow, Nat.add_assoc, Nat.add_sub_cancel_left]
          rfl
      · rw [hheaders, hfields]
        refine .inr ⟨c, n + m, by omega, ⟨_, rfl⟩, ?_⟩
        simp only [Reader.advance, Reader.narrow, Nat.add_assoc]
    · refine .inr ⟨c, n, hn, ⟨r.advance n, ?_⟩, ?_⟩
      · unfold Read.outline
        rw [bind_apply, hread]
      · rw [hread]

/-- Without limits the scan of a buffer follows the outline of the frame at its start. -/
theorem scan_cases {bytes : Array UInt8} (hsize : bytes.size ≤ maxBuffer) :
    (∃ frame layout, Read.outline (.ofBytes bytes) =
        .ok frame ((Reader.ofBytes bytes).advance frame.stop) ∧
      scan bytes .unlimited = .ok layout ∧ layout.stop = frame.stop ∧
      layout.fields.map FieldLayout.summary = frame.headers.map FieldHeader.summary) ∨
    ∃ c, (∃ r', Read.outline (.ofBytes bytes) = .error (.corruption c) r') ∧
      scan bytes .unlimited = .error (.corruption c) := by
  have hlength : (Reader.ofBytes bytes).ahead.length < UInt64.size - 1 := by
    rw [Reader.ahead_ofBytes, Array.length_toList]
    simp only [maxBuffer, UInt64.size] at *
    omega
  have hfollows := scanFrame_follows Limits.unlimited.maxDepth
    (Reader.sound_ofBytes hsize) hlength (show _ < Limits.unlimited.maxElements from hlength)
  have hobject : ¬ bytes.size > Limits.unlimited.maxObjectBytes := by
    rw [Reader.ahead_ofBytes, Array.length_toList] at hlength
    simp only [Limits.unlimited]
    omega
  unfold scan
  rw [if_neg hobject]
  rcases hfollows with ⟨frame, layout, hout, hscan, hstop, hmap⟩ | ⟨c, n, -, hout, hscan⟩
  · rw [hscan]
    exact .inl ⟨frame, layout, hout, rfl, hstop, hmap⟩
  · rw [hscan]
    exact .inr ⟨c, hout, rfl⟩

end ObjectLayout

end TaggedParcel
