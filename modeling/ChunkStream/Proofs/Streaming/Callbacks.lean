import ChunkStream.Proofs.Streaming.Retention
import ChunkStream.Streaming.History

/-!
# The callbacks of a region

A region makes a callback on a coordinate exactly when the coordinate enters or
leaves the set of those it reports, so the callbacks on one coordinate take
turns and the last one tells where the coordinate is.  What carries this is that
the reported coordinates are distinct and lie in the footprint: a footprint that
is taken over drops each of them once, and a footprint that happens to stay
drops none.
-/

namespace ChunkStream

/-! ## Turns -/

namespace Callback

variable {c : Coord} {n : Nat}

@[simp]
theorem length_turns : (turns c n).length = n := by
  simp [turns]

theorem turns_succ (c : Coord) (n : Nat) :
    turns c (n + 1)
      = turns c n ++ [if n % 2 = 0 then ready c else irrelevant c] := by
  simp [turns, List.range_succ]

/-- The last of an odd number of callbacks is a report. -/
theorem getLast?_turns :
    (turns c n).getLast? = some (ready c) ↔ n % 2 = 1 := by
  cases n with
  | zero => simp [turns]
  | succ n =>
    rw [turns_succ, List.getLast?_concat, Option.some.injEq]
    by_cases hn : n % 2 = 0
    · rw [if_pos hn]
      exact ⟨fun _ => by omega, fun _ => rfl⟩
    · rw [if_neg hn]
      exact ⟨fun h => Callback.noConfusion h, fun h => by omega⟩

end Callback

namespace Interest

variable {i j : Interest} {c : Coord} {a : InterestAct}

/-- The reported coordinates are distinct and lie in the footprint, which is the
one that belongs to center and distance. -/
structure Tidy (i : Interest) : Prop where
  fitted : i.Fitted
  inside : ∀ c ∈ i.relevant, i.box.contains c = true
  nodup : i.relevant.Nodup

/-! ## Taking over a footprint -/

/-- A footprint has been taken over.  The reports outside of it were taken back,
and if it is the one from before then nothing was told and the flag was not
raised. -/
structure Refitted (i j : Interest) (told : List Callback) : Prop where
  callbacks : told.Perm
    ((i.relevant.filter fun c => !j.box.contains c).map .irrelevant)
  relevant : j.relevant = i.relevant.filter j.box.contains
  still : j.box = i.box → told = []
    ∧ (j.dirty = true → i.dirty = true)
  raised : j.box ≠ i.box → j.dirty = true

namespace Refitted

/-- A region that keeps its footprint keeps its reports. -/
theorem of_still (hin : ∀ c ∈ i.relevant, i.box.contains c = true)
    (hbox : j.box = i.box) (hrelevant : j.relevant = i.relevant)
    (hdirty : j.dirty = true → i.dirty = true) : Refitted i j [] where
  callbacks := by
    have hnone : i.relevant.filter (fun c => !j.box.contains c) = [] := by
      rw [List.filter_eq_nil_iff, hbox]
      intro c hc
      simp [hin c hc]
    rw [hnone]
    exact .refl []
  relevant := by
    rw [hrelevant, hbox, List.filter_eq_self.2 hin]
  still _ := ⟨rfl, hdirty⟩
  raised h := absurd hbox h

theorem reshape (hin : ∀ c ∈ i.relevant, i.box.contains c = true) :
    Refitted i i.reshape.1 i.reshape.2 := by
  unfold Interest.reshape
  simp only
  split
  · exact of_still hin rfl rfl id
  · next hmoved =>
    exact ⟨.refl _, rfl, fun hbox => absurd hbox hmoved, fun _ => rfl⟩

theorem setDistance (hi : i.Tidy) (d : UInt32) :
    Refitted i (i.setDistance d).1 (i.setDistance d).2 := by
  unfold Interest.setDistance
  split
  · exact of_still hi.inside rfl rfl id
  · have hreshaped : Refitted { i with distance := d } _ _ := reshape hi.inside
    exact ⟨hreshaped.callbacks, hreshaped.relevant, hreshaped.still,
      hreshaped.raised⟩

theorem follow (hi : i.Tidy) (position : Option Coord) :
    Refitted i (i.follow position).1 (i.follow position).2 := by
  cases position with
  | none => exact of_still hi.inside rfl rfl fun h => Bool.noConfusion h
  | some here =>
    simp only [Interest.follow]
    split
    · exact of_still hi.inside rfl rfl id
    · have hreshaped : Refitted { i with center := here } _ _ :=
        reshape hi.inside
      exact ⟨hreshaped.callbacks, hreshaped.relevant, hreshaped.still,
        hreshaped.raised⟩

end Refitted

/-! ## What a callback stands for -/

/-- The callback that is due when a coordinate has entered or left the reported
ones. -/
def due (c : Coord) (i j : Interest) : List Callback :=
  if c ∈ j.relevant then if c ∈ i.relevant then [] else [.ready c]
  else if c ∈ i.relevant then [.irrelevant c] else []

theorem due_of_same (h : c ∈ j.relevant ↔ c ∈ i.relevant) :
    due c i j = [] := by
  unfold due
  by_cases hc : c ∈ i.relevant <;> simp [hc, h]

/-- The callbacks on one coordinate. -/
def heard (c : Coord) (log : List Callback) : List Callback :=
  log.filter fun cb => cb.coord = c

theorem heard_map_irrelevant {cs : List Coord} (hcs : cs.Nodup) (c : Coord) :
    heard c (cs.map .irrelevant) = if c ∈ cs then [.irrelevant c] else [] := by
  have hsame : (fun cb : Callback => decide (cb.coord = c)) ∘ .irrelevant
      = fun d => d == c := rfl
  rw [heard, List.filter_map, hsame, List.filter_beq, hcs.count]
  split <;> rfl

theorem Refitted.heard {told : List Callback} (h : Refitted i j told)
    (hi : i.Tidy) (c : Coord) : Interest.heard c told = due c i j := by
  have hperm := h.callbacks.filter fun cb => decide (cb.coord = c)
  have hdropped := heard_map_irrelevant
    (hi.nodup.filter fun c => !j.box.contains c) c
  rw [Interest.heard] at hdropped
  rw [hdropped] at hperm
  have hstays : c ∈ j.relevant ↔ c ∈ i.relevant ∧ j.box.contains c = true := by
    rw [h.relevant, List.mem_filter]
  unfold due
  by_cases hold : c ∈ i.relevant
  · by_cases hin : j.box.contains c = true
    · simpa [Interest.heard, hold, hin, hstays] using hperm
    · simpa [Interest.heard, hold, hin, hstays] using hperm
  · simpa [Interest.heard, hold, hstays] using hperm

theorem heard_chunkReady (d c : Coord) (i : Interest) :
    heard c (i.chunkReady d).2 = due c i (i.chunkReady d).1 := by
  unfold chunkReady
  split
  · next h =>
    by_cases hc : c = d
    · subst hc
      simp [heard, due, Callback.coord, h.2]
    · rw [due_of_same (by simp [hc])]
      simp [heard, Callback.coord, Ne.symm hc]
  · exact (due_of_same Iff.rfl).symm

theorem heard_chunkUnloaded (hi : i.Tidy) (d c : Coord) :
    heard c (i.chunkUnloaded d).2 = due c i (i.chunkUnloaded d).1 := by
  unfold chunkUnloaded
  split
  · next h =>
    by_cases hc : c = d
    · subst hc
      simp [heard, due, Callback.coord, hi.nodup.mem_erase_iff, h]
    · rw [due_of_same (by simp [hi.nodup.mem_erase_iff, hc])]
      simp [heard, Callback.coord, Ne.symm hc]
  · exact (due_of_same Iff.rfl).symm

namespace Tidy

theorem seenAt (id : ObserverId) (c : Coord) (d : UInt32) (l : Bool) :
    (seenAt id c d l).Tidy :=
  ⟨fitted_seenAt id c d l, fun _ h => absurd h List.not_mem_nil,
    List.nodup_nil⟩

theorem refitted {told : List Callback} (hi : i.Tidy)
    (h : Refitted i j told) (hfitted : j.Fitted) : j.Tidy where
  fitted := hfitted
  inside c hc := by
    rw [h.relevant] at hc
    exact (List.mem_filter.1 hc).2
  nodup := by
    rw [h.relevant]
    exact hi.nodup.filter _

/-- A region stays tidy, and an act makes the callbacks that are due. -/
theorem act (hi : i.Tidy) (a : InterestAct) :
    (i.act a).1.Tidy ∧ ∀ c, heard c (i.act a).2 = due c i (i.act a).1 := by
  cases a with
  | setDistance d =>
    have hrefitted := Refitted.setDistance hi d
    exact ⟨hi.refitted hrefitted (hi.fitted.setDistance d),
      hrefitted.heard hi⟩
  | follow position =>
    have hrefitted := Refitted.follow hi position
    exact ⟨hi.refitted hrefitted (hi.fitted.follow position),
      hrefitted.heard hi⟩
  | chunkReady d =>
    refine ⟨?_, fun c => heard_chunkReady d c i⟩
    simp only [Interest.act, Interest.chunkReady]
    split
    · next h =>
      refine ⟨hi.fitted, ?_, List.nodup_cons.2 ⟨h.2, hi.nodup⟩⟩
      intro c hc
      rcases List.mem_cons.1 hc with rfl | hc
      · exact h.1
      · exact hi.inside c hc
    · exact hi
  | chunkUnloaded d =>
    refine ⟨?_, heard_chunkUnloaded hi d⟩
    simp only [Interest.act, chunkUnloaded_spec]
    exact ⟨hi.fitted, fun c hc => hi.inside c (List.mem_of_mem_erase hc),
      hi.nodup.erase d⟩
  | setUpToDate =>
    exact ⟨⟨hi.fitted, hi.inside, hi.nodup⟩,
      fun _ => (due_of_same Iff.rfl).symm⟩

end Tidy

/-! ## Runs -/

/-- The callbacks on every coordinate have taken turns, and an odd number of
them says that the coordinate is reported. -/
def Recounted (log : List Callback) (i : Interest) : Prop :=
  ∀ c, heard c log = Callback.turns c (heard c log).length
    ∧ (c ∈ i.relevant ↔ (heard c log).length % 2 = 1)

/-- A callback that is due is the next one in turn. -/
theorem Recounted.append {log told : List Callback} (h : Recounted log i)
    (hdue : ∀ c, heard c told = due c i j) : Recounted (log ++ told) j := by
  intro c
  obtain ⟨hturns, hodd⟩ := h c
  have happend : heard c (log ++ told) = heard c log ++ due c i j := by
    rw [← hdue, heard, heard, heard, List.filter_append]
  rw [happend]
  generalize heard c log = before at *
  unfold due
  by_cases hold : c ∈ i.relevant
  · have hcount := hodd.1 hold
    by_cases hnew : c ∈ j.relevant
    · simpa [hold, hnew, hcount] using hturns
    · rw [if_neg hnew, if_pos hold, List.length_append, List.length_singleton,
        Callback.turns_succ, ← hturns, if_neg (by omega)]
      exact ⟨rfl, iff_of_false hnew (by omega)⟩
  · have hcount : before.length % 2 ≠ 1 := mt hodd.2 hold
    by_cases hnew : c ∈ j.relevant
    · rw [if_pos hnew, if_neg hold, List.length_append, List.length_singleton,
        Callback.turns_succ, ← hturns, if_pos (by omega)]
      exact ⟨rfl, iff_of_true hnew (by omega)⟩
    · simpa [hold, hnew, hcount] using hturns

theorem run_concat (acts : List InterestAct) (a : InterestAct)
    (i : Interest) : i.run (acts ++ [a])
      = ((i.run acts).1 ++ ((i.run acts).2.act a).2,
        ((i.run acts).2.act a).1) := by
  rw [run, List.foldl_concat]
  rfl

theorem recounted_run (hi : i.Tidy) (hfresh : i.relevant = [])
    (acts : List InterestAct) :
    (i.run acts).2.Tidy ∧ Recounted (i.run acts).1 (i.run acts).2 := by
  induction acts using List.reverseRecOn with
  | nil =>
    refine ⟨hi, fun c => ⟨rfl, ?_⟩⟩
    simp [run, hfresh, heard]
  | append_singleton acts a ih =>
    obtain ⟨htidy, hcounted⟩ := ih
    obtain ⟨hnext, hdue⟩ := htidy.act a
    rw [run_concat]
    exact ⟨hnext, hcounted.append hdue⟩

end Interest

/-- Whatever happens to a region, its box is the footprint that belongs to
center and distance and holds all that is reported.  The callbacks on a
coordinate take turns, beginning with a report, and the coordinate is reported
when the last of them was a report.  A new distance or a new place of the
observer is taken over.  It takes back the reports outside of the new box, and
when the box stays it makes no callback and does not raise the flag.  What
becomes ready in the box is reported, and what is unloaded is reported no
more. -/
theorem callbacks_follow_reports (id : ObserverId) (center : Coord)
    (distance : UInt32) (listening : Bool) (acts : List InterestAct) :
    let run := (Interest.seenAt id center distance listening).run acts
    let i := run.2
    i.box = Box.footprint i.center i.distance
      ∧ (∀ c ∈ i.relevant, i.box.contains c = true)
      ∧ (∀ c, Interest.heard c run.1
            = Callback.turns c (Interest.heard c run.1).length
          ∧ (c ∈ i.relevant ↔
            (Interest.heard c run.1).getLast? = some (.ready c)))
      ∧ (∀ d, Interest.Refitted i (i.setDistance d).1 (i.setDistance d).2
          ∧ (i.setDistance d).1.center = i.center
          ∧ (i.setDistance d).1.distance = d)
      ∧ (∀ position,
          Interest.Refitted i (i.follow position).1 (i.follow position).2
            ∧ (i.follow position).1.center = position.getD i.center
            ∧ (i.follow position).1.distance = i.distance)
      ∧ (∀ c d, d ∈ (i.chunkReady c).1.relevant ↔
          d ∈ i.relevant ∨ d = c ∧ i.box.contains c = true)
      ∧ ∀ c d, d ∈ (i.chunkUnloaded c).1.relevant ↔
          d ∈ i.relevant ∧ d ≠ c := by
  intro run i
  obtain ⟨htidy, hcounted⟩ := Interest.recounted_run
    (.seenAt id center distance listening) rfl acts
  refine ⟨htidy.fitted, htidy.inside, ?_,
    fun d => ⟨.setDistance htidy d, Interest.place_setDistance d i⟩,
    fun position => ⟨.follow htidy position, Interest.place_follow position i⟩,
    fun c d => Interest.mem_relevant_chunkReady, ?_⟩
  · intro c
    obtain ⟨hturns, hodd⟩ := hcounted c
    refine ⟨hturns, hodd.trans ?_⟩
    rw [hturns, Callback.getLast?_turns, Callback.length_turns]
  · intro c d
    rw [Interest.chunkUnloaded_spec, htidy.nodup.mem_erase_iff, and_comm]

/-- The observer goes away and comes back. -/
example : ((Interest.seenAt 1 .origin 0 true).run
    [.chunkReady .origin, .follow (some ⟨5, 0, 0⟩), .follow none,
      .follow (some .origin), .chunkReady .origin]).1
      = [.ready .origin, .irrelevant .origin, .ready .origin] := by
  decide +kernel

end ChunkStream
