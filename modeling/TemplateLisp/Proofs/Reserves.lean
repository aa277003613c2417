import TemplateLisp.Proofs.WorldChanges

/-!
# Objects out of reach

An object that has just been made and that nothing refers to is out of reach of a program until it
is handed out. A `Reserve` is a set of such objects. Values that a program works with are admitted
(`Reserve.Admits`): they exist and are not in the reserve. If all that is held outside of the
reserve is admitted (`Reserve.Apart`), then a change that puts only admitted values into objects,
and gives only admitted objects new contents, respects the reserve (`Reserve.Respects`): it leaves
the objects in it as they are and the reserve out of reach.
-/

namespace TemplateLisp

/-- Objects of the heap. -/
structure Reserve where
  cells : CellRef → Prop
  vectors : VectorRef → Prop
  /-- Numbers of maps of their own. -/
  maps : Nat → Prop
  closures : ClosureRef → Prop
  frames : FrameRef → Prop

namespace Reserve

/-- No objects. -/
def none : Reserve :=
  ⟨fun _ => False, fun _ => False, fun _ => False, fun _ => False, fun _ => False⟩

variable (s : Reserve)

/-- The place is an object of the reserve, so that it may refer to others. -/
def Covers : World.Holder → Prop
  | .cell r => s.cells r
  | .vector r => s.vectors r
  | .map index => s.maps index
  | .closure r => s.closures r
  | .frame r => s.frames r
  | _ => False

/-- The value refers to something that exists and is not in the reserve, if to anything. -/
def Admits (w : World) : Value → Prop
  | .cell r => r.index < w.cells.size ∧ ¬ s.cells r
  | .vector r => r.index < w.vectors.size ∧ ¬ s.vectors r
  | .tuple r => r.index < w.tuples.size
  | .map (.own index) => index < w.maps.size ∧ ¬ s.maps index
  | .map (.vars env) | .env env => env.index < w.frames.size ∧ ¬ s.frames env
  | .closure r => r.index < w.closures.size ∧ ¬ s.closures r
  | _ => True

/-- The objects of the reserve exist, and nothing else refers to them. -/
structure Apart (w : World) : Prop where
  cells : ∀ r, s.cells r → r.index < w.cells.size
  vectors : ∀ r, s.vectors r → r.index < w.vectors.size
  maps : ∀ index, s.maps index → index < w.maps.size
  closures : ∀ r, s.closures r → r.index < w.closures.size
  frames : ∀ r, s.frames r → r.index < w.frames.size
  held : ∀ place, ¬ s.Covers place → ∀ v ∈ w.held place, s.Admits w v

/-- From one world to the next, objects of the reserve keep their contents, and no reference to one
gets to where there was none. -/
structure Respects (w w' : World) : Prop where
  cell : ∀ r, s.cells r → r.index < w.cells.size → w'.cell r = w.cell r
  vector : ∀ r, s.vectors r → r.index < w.vectors.size → w'.vector r = w.vector r
  entries : ∀ index, s.maps index → index < w.maps.size →
    w'.entries (.own index) = w.entries (.own index)
  frame : ∀ r, s.frames r → r.index < w.frames.size → w'.frame r = w.frame r
  held : ∀ place, ¬ s.Covers place → ∀ v ∈ w'.held place, v ∈ w.held place ∨ s.Admits w v

variable {s} {w w' : World} {v : Value}

theorem Admits.inRange (h : s.Admits w v) : w.InRange v := by
  cases v with
  | cell r | vector r | closure r | env r => exact h.1
  | map r => cases r <;> exact h.1
  | _ => exact h

theorem admits_none_iff : none.Admits w v ↔ w.InRange v := by
  refine ⟨Admits.inRange, fun h => ?_⟩
  cases v with
  | cell r | vector r | closure r | env r => exact ⟨h, id⟩
  | map r => cases r <;> exact ⟨h, id⟩
  | _ => exact h

theorem Admits.mono (h : s.Admits w v) (hw : w.Grows w') : s.Admits w' v := by
  have hrange := h.inRange.mono hw
  cases v with
  | cell r | vector r | closure r | env r => exact ⟨hrange, h.2⟩
  | map r => cases r <;> exact ⟨hrange, h.2⟩
  | _ => exact hrange

theorem admits_of_isPlain (h : v.isPlain = true) : s.Admits w v := by
  cases v with
  | cell r | vector r | tuple r | map r | closure r | env r => cases h
  | _ => trivial

/-- Nothing needs to be kept apart. -/
theorem apart_none (h : w.Sound) : none.Apart w :=
  ⟨fun _ => False.elim, fun _ => False.elim, fun _ => False.elim, fun _ => False.elim,
    fun _ => False.elim, fun place _ v hv => admits_none_iff.2 (h.held place v hv)⟩

/-- The reserve stays out of reach. -/
theorem Apart.step (h : s.Apart w) (hgrows : w.Grows w') (hstep : s.Respects w w') :
    s.Apart w' where
  cells r hr := Nat.lt_of_lt_of_le (h.cells r hr) hgrows.cells
  vectors r hr := Nat.lt_of_lt_of_le (h.vectors r hr) hgrows.vectors
  maps index hr := Nat.lt_of_lt_of_le (h.maps index hr) hgrows.maps
  closures r hr := Nat.lt_of_lt_of_le (h.closures r hr) hgrows.closures
  frames r hr := Nat.lt_of_lt_of_le (h.frames r hr) hgrows.frames
  held place hplace v hv := by
    rcases hstep.held place hplace v hv with hold | hnew
    · exact (h.held place hplace v hold).mono hgrows
    · exact hnew.mono hgrows

/-! ## Changes that respect a reserve -/

/-- Nothing happens to what may be in a reserve. -/
theorem Respects.of_held (hcells : w'.cells = w.cells) (hvectors : w'.vectors = w.vectors)
    (hmaps : w'.maps = w.maps) (hframes : w'.frames = w.frames)
    (hheld : ∀ place, ∀ v ∈ w'.held place, v ∈ w.held place ∨ s.Admits w v) : s.Respects w w' where
  cell r _ _ := by rw [World.cell, hcells, World.cell]
  vector r _ _ := by rw [World.vector, hvectors, World.vector]
  entries r _ _ := by rw [World.entries, hmaps, World.entries]
  frame r _ _ := by rw [World.frame, hframes, World.frame]
  held place _ := hheld place

theorem Respects.addCell {c : Cell} (hcar : s.Admits w c.car) (hcdr : s.Admits w c.cdr) :
    s.Respects w (w.addCell c).2 where
  cell r _ hr := by rw [World.cell_addCell, if_neg (Nat.ne_of_lt hr)]
  vector _ _ _ := rfl
  entries _ _ _ := rfl
  frame _ _ _ := rfl
  held place _ v hv := by
    refine (World.held_addCell hv).imp_right ?_
    rintro (rfl | rfl)
    · exact hcar
    · exact hcdr

theorem Respects.addVector {items : List Value} (hitems : ∀ v ∈ items, s.Admits w v) :
    s.Respects w (w.addVector items).2 where
  cell _ _ _ := rfl
  vector r _ hr := by rw [World.vector_addVector, if_neg (Nat.ne_of_lt hr)]
  entries _ _ _ := rfl
  frame _ _ _ := rfl
  held place _ v hv := (World.held_addVector hv).imp_right (hitems v)

theorem Respects.addTuple {items : List Value} (hitems : ∀ v ∈ items, s.Admits w v) :
    s.Respects w (w.addTuple items).2 :=
  .of_held rfl rfl rfl rfl fun _ v hv => (World.held_addTuple hv).imp_right (hitems v)

theorem Respects.addMap {es : List (Value × Value)}
    (hes : ∀ v ∈ World.entryValues es, s.Admits w v) : s.Respects w (w.addMap es).2 where
  cell _ _ _ := rfl
  vector _ _ _ := rfl
  entries index _ hr := by rw [World.entries_addMap, if_neg (Nat.ne_of_lt hr)]
  frame _ _ _ := rfl
  held place _ v hv := (World.held_addMap hv).imp_right (hes v)

theorem Respects.addFrame {f : Frame} (hf : ∀ v ∈ World.frameValues f, s.Admits w v) :
    s.Respects w (w.addFrame f).2 where
  cell _ _ _ := rfl
  vector _ _ _ := rfl
  entries _ _ _ := rfl
  frame r _ hr := by rw [World.frame_addFrame, if_neg (Nat.ne_of_lt hr)]
  held place _ v hv := (World.held_addFrame hv).imp_right (hf v)

theorem Respects.updateVars {env : FrameRef} {f : Bindings → Bindings} (henv : ¬ s.frames env)
    (hf : ∀ v ∈ World.entryValues (f (w.frame env).vars),
      v ∈ World.entryValues (w.frame env).vars ∨ s.Admits w v) :
    s.Respects w (w.updateVars env f) where
  cell _ _ _ := rfl
  vector _ _ _ := rfl
  entries _ _ _ := rfl
  frame r hr _ := by
    rw [World.frame_updateVars, if_neg]
    rintro ⟨hindex, -⟩
    obtain rfl : r = env := congrArg FrameRef.mk hindex
    exact henv hr
  held place _ v hv := World.held_updateVars (hf v) hv

theorem Respects.setCar {r : CellRef} (hr : s.Admits w (.cell r)) (hv : s.Admits w v) :
    s.Respects w (w.setCar r v) where
  cell q hq _ := by
    rw [World.cell_setCar, if_neg]
    rintro ⟨hindex, -⟩
    obtain rfl : q = r := congrArg CellRef.mk hindex
    exact hr.2 hq
  vector _ _ _ := rfl
  entries _ _ _ := rfl
  frame _ _ _ := rfl
  held place _ x hx := by
    rcases World.held_setCar hx with hold | rfl
    · exact .inl hold
    · exact .inr hv

theorem Respects.setCdr {r : CellRef} (hr : s.Admits w (.cell r)) (hv : s.Admits w v) :
    s.Respects w (w.setCdr r v) where
  cell q hq _ := by
    rw [World.cell_setCdr, if_neg]
    rintro ⟨hindex, -⟩
    obtain rfl : q = r := congrArg CellRef.mk hindex
    exact hr.2 hq
  vector _ _ _ := rfl
  entries _ _ _ := rfl
  frame _ _ _ := rfl
  held place _ x hx := by
    rcases World.held_setCdr hx with hold | rfl
    · exact .inl hold
    · exact .inr hv

theorem Respects.setVector {r : VectorRef} {items : List Value} (hr : s.Admits w (.vector r))
    (hitems : ∀ v ∈ items, s.Admits w v) : s.Respects w (w.setVector r items) where
  cell _ _ _ := rfl
  vector q hq _ := by
    rw [World.vector_setVector, if_neg]
    rintro ⟨hindex, -⟩
    obtain rfl : q = r := congrArg VectorRef.mk hindex
    exact hr.2 hq
  entries _ _ _ := rfl
  frame _ _ _ := rfl
  held place _ v hv := (World.held_setVector hv).imp_right (hitems v)

theorem Respects.setEntries {index : Nat} {es : List (Value × Value)}
    (hr : s.Admits w (.map (.own index))) (hes : ∀ v ∈ World.entryValues es, s.Admits w v) :
    s.Respects w (w.setEntries (.own index) es) where
  cell _ _ _ := rfl
  vector _ _ _ := rfl
  entries q hq _ := by
    rw [World.entries_setEntries, if_neg]
    rintro ⟨rfl, -⟩
    exact hr.2 hq
  frame _ _ _ := rfl
  held place _ v hv := (World.held_setEntries hv).imp_right (hes v)

end Reserve

end TemplateLisp
