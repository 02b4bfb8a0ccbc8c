import TaggedParcel.Proofs.Frame.Scan
import TaggedParcel.Proofs.Value.Limits

set_option relaxedAutoImplicit false
set_option autoImplicit false

/-!
# Scanning under larger limits

A walk inside a payload is only a trial, and most of its failures are forgotten: the payload then
counts as opaque. So a failure that came and went with the limits could change a layout. None
does: a limit that is crossed in a trial, however deep, ends the whole scan, and what a trial
fails for otherwise it fails for under larger limits as well.

## Main definitions

* `Read.Settled` — unless one step crosses a limit, another one does the same.

## Main results

* `Read.Settled.bind`, `Read.Settled.probe` — a crossed limit comes through, also out of a trial.
* `ObjectLayout.scanFrame_settled` — frames are walked in the same way under larger limits.
* `ObjectLayout.scan_raise` — raising limits changes neither a layout nor a corruption.
-/

namespace TaggedParcel

namespace Read

variable {α β : Type}

/-- Unless the first step crosses a limit, the second one does the same: it gives the same answer
or fails for the same reason, and leaves the same reader. -/
def Settled (step step' : Read FrameError α) : Prop :=
  ∀ r, (∃ e r', step r = .error (.limit e) r') ∨ step' r = step r

namespace Settled

variable {step step' : Read FrameError α}

/-- A step that sees no limits is settled. -/
lemma refl (step : Read FrameError α) : Settled step step :=
  fun _ => .inr rfl

/-- What crosses a limit is settled by anything. -/
lemma crossed (e : LimitExceeded) (step' : Read FrameError α) :
    Settled (MonadExcept.throw (.limit e)) step' :=
  fun r => .inl ⟨e, r, rfl⟩

/-- Steps that are settled are settled one after another. -/
lemma bind {next next' : α → Read FrameError β} (h : Settled step step')
    (hnext : ∀ a, Settled (next a) (next' a)) : Settled (step >>= next) (step' >>= next') := by
  intro r
  rw [bind_apply, bind_apply]
  rcases h r with ⟨e, r', hrun⟩ | hsame
  · simp [hrun]
  · rw [hsame]
    cases step r with
    | ok a r' => exact hnext a r'
    | error e r' => exact .inr rfl

/-- A step before two that differ. -/
lemma after (step : Read FrameError α) {next next' : α → Read FrameError β}
    (hnext : ∀ a, Settled (next a) (next' a)) : Settled (step >>= next) (step >>= next') :=
  bind (refl step) hnext

/-- A block that is refused is refused for no limit of the three. -/
lemma within (stop : Nat) (h : Settled step step') :
    Settled (within .buffer stop step) (within .buffer stop step') := by
  intro r
  unfold Read.within
  by_cases hlimit : stop > r.limit
  · simp [hlimit]
  · by_cases hpos : stop < r.pos
    · simp [hpos]
    · rw [if_neg hlimit, if_neg hlimit, if_neg hpos, if_neg hpos]
      rcases h { r with limit := stop } with ⟨e, r', hrun⟩ | hsame
      · simp [hrun]
      · simp [hsame]

/-- A trial passes on the limit that the walk inside crosses, and forgets all other failures, which
are the same for both walks. -/
lemma probe {walk walk' : Read FrameError ObjectLayout} (h : Settled walk walk') (stop : Nat) :
    Settled (ObjectLayout.probe walk stop) (ObjectLayout.probe walk' stop) := by
  intro r
  unfold ObjectLayout.probe
  rcases within stop h r with ⟨e, r', hrun⟩ | hsame
  · simp [hrun]
  · simp [hsame]

end Settled

end Read

namespace ObjectLayout

variable {walk walk' : Read FrameError ObjectLayout} {limits limits' : Limits}

/-- A field is settled if walks inside it are. -/
lemma scanField_settled (h : Read.Settled walk walk') (stop : Nat) :
    Read.Settled (scanField walk stop) (scanField walk' stop) := by
  refine .after _ fun offset => .after _ fun header => .after _ fun r => ?_
  by_cases hobject : header.format = .delimited ∧ startsObject r.bytes header.payloadStart
  · simp only [if_pos hobject]
    exact .bind (.probe h _) fun nested => .refl _
  · simp only [if_neg hobject]
    exact .refl _

/-- The fields of a frame are walked in the same way, if those are in which objects are tried. -/
lemma scanFields_settled (hle : limits.AtMost limits') (h : Read.Settled walk walk')
    (stop fuel count : Nat) (done : List FieldLayout) :
    Read.Settled (scanFields limits walk stop fuel count done)
      (scanFields limits' walk' stop fuel count done) := by
  have hmax := hle.elements_le
  induction fuel generalizing count done with
  | zero => exact .refl _
  | succ fuel ih =>
    refine .after Read.position fun pos => ?_
    by_cases hpos : pos < stop
    · simp only [if_pos hpos]
      by_cases hcount : count ≥ limits.maxElements
      · simp only [if_pos hcount]
        exact .crossed ⟨.elements, limits.maxElements, count + 1⟩ _
      · have hcount' : ¬ count ≥ limits'.maxElements := by omega
        simp only [if_neg hcount, if_neg hcount']
        exact .bind (scanField_settled h stop) fun field => ih (count + 1) (field :: done)
    · simp only [if_neg hpos]
      exact .refl _

/-- Frames are walked in the same way under larger limits, with no fewer levels left. -/
theorem scanFrame_settled (hle : limits.AtMost limits') {levels levels' : Nat}
    (hlevels : levels ≤ levels') :
    Read.Settled (scanFrame limits levels) (scanFrame limits' levels') := by
  induction levels generalizing levels' with
  | zero => exact .crossed (.depth limits) _
  | succ levels ih =>
    obtain ⟨levels', rfl⟩ : ∃ n, levels' = n + 1 := ⟨levels' - 1, by omega⟩
    refine .after _ fun offset => .after _ fun stop => .after _ fun start =>
      .bind (.within stop ?_) ?_
    · exact scanFields_settled hle (ih (by omega)) stop _ 0 []
    · exact fun fields => .refl _

/-- Unless a limit is crossed, a scan under larger limits has the same outcome. -/
lemma scan_settled (hle : limits.AtMost limits') (bytes : Array UInt8) :
    (∃ e, scan bytes limits = .error (.limit e)) ∨ scan bytes limits' = scan bytes limits := by
  have hmax := hle.bytes_le
  unfold scan
  by_cases hsize : bytes.size > limits.maxObjectBytes
  · simp [hsize]
  · rw [if_neg hsize, if_neg (by omega)]
    rcases scanFrame_settled hle hle.depth_le (.ofBytes bytes) with ⟨e, r, hrun⟩ | hsame
    · simp [hrun]
    · simp [hsame]

/-- Raising limits changes neither a layout nor a corruption: what a scan finds under some limits
it finds under larger ones, and where it fails for the bytes it fails for the same reason.

**Proof sketch.** The scan under the smaller limits crossed none, since a crossed limit is passed
on through all trials around it and would be the outcome. So every check of a limit was passed, and
is passed under the larger limits too, and every trial that failed did so for its bytes alone. Both
scans go the same way. -/
theorem scan_raise (hle : limits.AtMost limits') (bytes : Array UInt8) :
    (∀ layout, scan bytes limits = .ok layout → scan bytes limits' = .ok layout) ∧
      ∀ c, scan bytes limits = .error (.corruption c) →
        scan bytes limits' = .error (.corruption c) := by
  rcases scan_settled hle bytes with ⟨e, hcrossed⟩ | hsame
  · simp [hcrossed]
  · rw [hsame]
    exact ⟨fun layout h => h, fun c h => h⟩

end ObjectLayout

namespace Sample

/-- A frame with a field that holds the first word of a frame and no more, and an empty field. -/
def trialFrame : Array UInt8 :=
  #[0x45, 0x4F, 16, 0,  6, 0, 0xFF, 0xFF, 4, 0, 0, 0, 0x45, 0x4F, 0xFF, 0xFF,  7, 0, 0, 0]

/-- The layout of `trialFrame`: the trial finds no object. -/
def trialLayout : ObjectLayout :=
  ⟨0, 16, 20, [⟨6, 4, 12, 4, .delimited, none⟩, ⟨7, 16, 20, 0, .fixed, none⟩]⟩

end Sample

namespace ObjectLayout

/-- The smaller limits are just large enough for the frame. Without its last byte it is corrupt,
whatever the limits are. -/
theorem scan_raise_trial :
    Limits.AtMost ⟨2, 2, 20⟩ ⟨3, 4, 50⟩ ∧
      scan Sample.trialFrame ⟨2, 2, 20⟩ = .ok Sample.trialLayout ∧
      scan Sample.trialFrame ⟨3, 4, 50⟩ = .ok Sample.trialLayout ∧
      scan Sample.trialFrame.pop ⟨2, 2, 20⟩ = .error (.corruption (.overread 20 19)) ∧
      scan Sample.trialFrame.pop ⟨3, 4, 50⟩ = .error (.corruption (.overread 20 19)) := by
  have hle : Limits.AtMost ⟨2, 2, 20⟩ ⟨3, 4, 50⟩ := ⟨by decide, by decide, by decide⟩
  have hfound : scan Sample.trialFrame ⟨2, 2, 20⟩ = .ok Sample.trialLayout := rfl
  have hcorrupt : scan Sample.trialFrame.pop ⟨2, 2, 20⟩ =
      .error (.corruption (.overread 20 19)) := rfl
  exact ⟨hle, hfound, (scan_raise hle _).1 _ hfound, hcorrupt, (scan_raise hle _).2 _ hcorrupt⟩

end ObjectLayout

end TaggedParcel
