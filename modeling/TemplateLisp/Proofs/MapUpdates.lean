import Mathlib
import TemplateLisp.Builtin.Basic
import TemplateLisp.Proofs.Keys
import TemplateLisp.Proofs.Transcript
import TemplateLisp.Proofs.WorldChanges
import TemplateLisp.Host.Sample

/-!
# What is read back from a map after a write

`map-set!` writes under the first key that matches the one it is given, `get` and `assoc-value` ask
for the key itself before they look for one that matches. `Maps.get_after_mapSet` gives the value
that is read back after a write that succeeds: the one that was written, but where the write went to
another key and the map has a value for the key itself, which is then read as it was.

That a look-up does the same after the write needs that comparing a key looks into no map
(`World.equalAt_setEntries`), and what it finds follows from `World.findKey?_putKey`.
-/

namespace TemplateLisp

namespace World

/-! ## Other entries of a map do not show in a key -/

section
variable {w : World} (r : MapRef) (es : List (Value × Value))

@[simp] theorem vector_setEntries (s : VectorRef) : (w.setEntries r es).vector s = w.vector s := by
  cases r <;> rfl

@[simp] theorem tuple_setEntries (s : TupleRef) : (w.setEntries r es).tuple s = w.tuple s := by
  cases r <;> rfl

@[simp] theorem tuples_setEntries : (w.setEntries r es).tuples = w.tuples := by cases r <;> rfl

@[simp] theorem containers_setEntries : (w.setEntries r es).containers = w.containers := by
  cases r <;> simp [setEntries, updateVars, containers]

/-- What is written to a map, or to the variables of a frame, is there. -/
theorem entries_setEntries_self {r : MapRef} (hr : w.InRange (.map r)) :
    (w.setEntries r es).entries r = es := by
  cases r with
  | own index => rw [entries_setEntries, if_pos ⟨rfl, hr⟩]
  | vars env => rw [setEntries, entries, frame_updateVars, if_pos ⟨rfl, hr⟩]

theorem allPairs_congr {test test' : Value → Value → Except Stop Bool} {xs : List Value}
    (h : ∀ x ∈ xs, ∀ y, test x y = test' x y) (ys : List Value) :
    allPairs test xs ys = allPairs test' xs ys := by
  induction xs generalizing ys with
  | nil => cases ys <;> rfl
  | cons x xs ih =>
    obtain ⟨hx, hxs⟩ := List.forall_mem_cons.1 h
    cases ys with
    | nil => rfl
    | cons y ys => rw [allPairs, allPairs, hx y, ih hxs ys]

theorem sameKeyAt_setEntries (n : Nat) (a b : Value) :
    (w.setEntries r es).sameKeyAt n a b = w.sameKeyAt n a b := by
  induction n generalizing a b with
  | zero => rfl
  | succ n ih =>
    simp only [sameKeyAt, ih, tuple_setEntries]

theorem sequence?_setEntries (v : Value) : (w.setEntries r es).sequence? v = w.sequence? v := by
  cases v <;> simp [sequence?]

/-- A key that is a sequence holds keys. -/
theorem isKeyAt_of_mem {m : Nat} {a : Value} {xs : List Value} (ha : w.isKeyAt (m + 1) a = true)
    (hxs : w.sequence? a = some xs) : ∀ x ∈ xs, w.isKeyAt m x = true := by
  cases a with
  | vector r => cases ha
  | tuple r =>
    cases hxs
    exact List.all_eq_true.1 ha
  | _ => cases hxs

/-- No map is looked into when a key is compared. -/
theorem equalAt_setEntries {n m : Nat} {a : Value} (ha : w.isKeyAt m a = true) (b : Value) :
    (w.setEntries r es).equalAt n a b = w.equalAt n a b := by
  induction n generalizing m a b with
  | zero => rfl
  | succ n ih =>
    obtain ⟨m, rfl⟩ : ∃ k, m = k + 1 := by
      cases m with
      | zero => cases ha
      | succ m => exact ⟨m, rfl⟩
    unfold equalAt
    split
    · rfl
    split
    · rfl
    · rfl
    · rfl
    · cases ha
    · cases ha
    · rw [sequence?_setEntries, sequence?_setEntries]
      split
      · rename_i xs ys hxs _
        rw [allPairs_congr (fun x hx => ih (isKeyAt_of_mem ha hxs x hx)) ys]
      · rfl

theorem keysMatch_setEntries (room : Room) {k : Value} (hk : w.isKey k = true) (c : Value) :
    (w.setEntries r es).keysMatch room k c = w.keysMatch room k c := by
  have hequal : (w.setEntries r es).equal room k c = w.equal room k c := by
    rw [equal, equal, containers_setEntries, equalAt_setEntries r es hk]
  unfold keysMatch
  rw [hequal]

theorem matchingKey?_setEntries (room : Room) {k : Value} (hk : w.isKey k = true)
    (fs : List (Value × Value)) :
    (w.setEntries r es).matchingKey? room k fs = w.matchingKey? room k fs := by
  induction fs with
  | nil => rfl
  | cons e fs ih => rw [matchingKey?, matchingKey?, keysMatch_setEntries r es room hk, ih]

theorem findKey?_setEntries (fs : List (Value × Value)) (k : Value) :
    (w.setEntries r es).findKey? fs k = w.findKey? fs k := by
  have hsame (c : Value) : (w.setEntries r es).sameKey c k = w.sameKey c k := by
    rw [sameKey, sameKey, tuples_setEntries, sameKeyAt_setEntries]
  rw [findKey?, findKey?]
  simp only [hsame]

theorem lookUp?_setEntries (room : Room) {k : Value} (hk : w.isKey k = true)
    (fs : List (Value × Value)) :
    (w.setEntries r es).lookUp? room fs k = w.lookUp? room fs k := by
  rw [lookUp?, lookUp?, findKey?_setEntries, matchingKey?_setEntries r es room hk]
  simp only [findKey?_setEntries]

theorem isKeyAt_setEntries (n : Nat) (v : Value) :
    (w.setEntries r es).isKeyAt n v = w.isKeyAt n v := by
  induction n generalizing v with
  | zero => rfl
  | succ n ih =>
    cases v with
    | tuple s =>
      rw [isKeyAt, isKeyAt, tuple_setEntries]
      exact congrArg (w.tuple s).all (funext ih)
    | _ => rfl

theorem isKey_setEntries (v : Value) : (w.setEntries r es).isKey v = w.isKey v := by
  rw [isKey, isKey, tuples_setEntries, isKeyAt_setEntries]

end

/-! ## Looking up what was written -/

section
variable {w : World} {room : Room} {k : Value} {es : List (Value × Value)}

/-- Only the keys are looked at for one that matches. -/
theorem matchingKey?_congr {fs : List (Value × Value)} (h : fs.map Prod.fst = es.map Prod.fst) :
    w.matchingKey? room k fs = w.matchingKey? room k es := by
  induction es generalizing fs with
  | nil =>
    obtain rfl := List.map_eq_nil_iff.1 h
    rfl
  | cons e es ih =>
    cases fs with
    | nil => cases h
    | cons e' fs =>
      obtain ⟨hkey, hrest⟩ := List.cons.inj h
      rw [matchingKey?, matchingKey?, hkey, ih hrest]

/-- What the key `k` gives after `v` was written under the first key that matches it, if any: `v`,
unless another key was written to and `k` itself is there with a value of its own. -/
def readBack (w : World) (es : List (Value × Value)) (written? : Option Value)
    (k v : Value) : Value :=
  match written? with
  | some c => if w.sameKey c k then v else (w.findKey? es k).getD v
  | none => v

theorem lookUp?_putKey {written? : Option Value} (v : Value)
    (h : w.matchingKey? room k es = .ok written?) :
    w.lookUp? room (w.putKey (written?.getD k) v es) k =
      .ok (some (w.readBack es written? k v)) := by
  rw [lookUp?, findKey?_putKey]
  cases written? with
  | none =>
    rw [Option.getD_none, if_pos (w.sameKey_refl k)]
    rfl
  | some c =>
    rw [Option.getD_some, readBack]
    by_cases hsame : w.sameKey c k = true
    · rw [if_pos hsame, if_pos hsame]
    · rw [if_neg hsame, if_neg hsame]
      cases hfind : w.findKey? es k with
      | some old => rfl
      | none =>
        -- `c` was there before the write, so it is still the first key that matches
        rw [matchingKey?_congr (w.putKey_keys v (matchingKey?_mem h)), h]
        show Except.ok (w.findKey? (w.putKey c v es) c) = _
        rw [findKey?_putKey, if_pos (w.sameKey_refl c)]
        rfl

end

end World

/-! ## The built-in functions -/

namespace Maps

section
variable {room : Room} {w w' : World} {r : MapRef} {k : Value}

theorem run_checkKey (hk : w.isKey k = true) (name : String) (index : Nat) :
    (checkKey name index k).run w = .ok () w := by
  rw [checkKey, Run.run_look_bind, if_pos hk]
  rfl

theorem run_valueAt? {found : Option Value} (h : w.lookUp? room (w.entries r) k = .ok found) :
    (valueAt? room r k).run w = .ok found w := by
  rw [valueAt?, Run.run_lookOrStop, h]

theorem run_get_default [Host] (hk : w.isKey k = true) {found : Option Value}
    (h : w.lookUp? room (w.entries r) k = .ok found) (default? : Option Value) :
    (get room (.map r) k default?).run w = .ok (found.getD (default?.getD .nil)) w := by
  rw [get, EStateM.run_bind, run_checkKey hk]
  dsimp only
  rw [EStateM.run_bind, run_valueAt? h]
  rfl

theorem run_get [Host] (hk : w.isKey k = true) {v : Value}
    (h : w.lookUp? room (w.entries r) k = .ok (some v)) :
    (get room (.map r) k none).run w = .ok v w := run_get_default hk h none

theorem run_assocValue [Host] (hk : w.isKey k = true) {v : Value}
    (h : w.lookUp? room (w.entries r) k = .ok (some v)) :
    (assocValue room k (.map r)).run w = .ok v w := by
  rw [assocValue, EStateM.run_bind, run_checkKey hk]
  dsimp only
  rw [EStateM.run_bind, run_valueAt? h]
  rfl

theorem run_set (hk : w.isKey k = true) {written? : Option Value}
    (h : w.matchingKey? room k (w.entries r) = .ok written?) (v : Value) :
    (set room (.map r) k v).run w =
      .ok (.map r) (w.setEntries r (w.putKey (written?.getD k) v (w.entries r))) := by
  rw [set, EStateM.run_bind, run_checkKey hk]
  dsimp only
  rw [EStateM.run_bind, Run.run_lookOrStop, h]
  rfl

/-- What a write does that succeeds: the first key that matches, or else the key itself, gets the
value. -/
theorem set_cases {m v result : Value} (h : (set room m k v).run w = .ok result w') :
    ∃ r written?, m = .map r ∧ w.isKey k = true ∧
      w.matchingKey? room k (w.entries r) = .ok written? ∧
      w' = w.setEntries r (w.putKey (written?.getD k) v (w.entries r)) := by
  cases m with
  | map r =>
    rw [set, EStateM.run_bind] at h
    by_cases hk : w.isKey k = true
    · rw [run_checkKey hk] at h
      dsimp only at h
      rw [EStateM.run_bind, Run.run_lookOrStop] at h
      cases hfound : w.matchingKey? room k (w.entries r) with
      | error s =>
        rw [hfound] at h
        cases h
      | ok written? =>
        rw [hfound] at h
        cases h
        exact ⟨r, written?, rfl, hk, hfound, rfl⟩
    · rw [checkKey, Run.run_look_bind, if_neg hk] at h
      cases h
  | _ => cases h

end

/-- After a value is written to a map under a key, both ways of reading the key give one value: the
one that was written, unless the write went to another key and the map has a value for the key
itself. -/
theorem get_after_mapSet [Host] (room : Room) (call : Caller) {m k v result : Value} {w w' : World}
    (hm : w.InRange m) (h : (Builtin.mapSet.run room call [m, k, v]).run w = .ok result w') :
    ∃ r written?, m = .map r ∧ w.matchingKey? room k (w.entries r) = .ok written? ∧
      (Builtin.get.run room call [m, k]).run w' =
        .ok (w.readBack (w.entries r) written? k v) w' ∧
      (Builtin.assocValue.run room call [k, m]).run w' =
        .ok (w.readBack (w.entries r) written? k v) w' := by
  obtain ⟨r, written?, rfl, hk, hmatch, rfl⟩ := set_cases h
  have hkey (es : List (Value × Value)) : (w.setEntries r es).isKey k = true :=
    (World.isKey_setEntries r es k).trans hk
  have hlook (es : List (Value × Value)) (x : Value) (hx : w.lookUp? room es k = .ok (some x)) :
      (w.setEntries r es).lookUp? room ((w.setEntries r es).entries r) k = .ok (some x) := by
    rw [World.entries_setEntries_self es hm, World.lookUp?_setEntries r es room hk, hx]
  have hread := hlook _ _ (World.lookUp?_putKey v hmatch)
  exact ⟨r, written?, rfl, hmatch, run_get (hkey _) hread, run_assocValue (hkey _) hread⟩

/-- A map in which a text comes before the keyword of the same name. -/
def shadowingWorld : World :=
  { World.empty with maps := #[[(.str "a", .int 1), (.sym ⟨":a"⟩, .int 2)]] }

/-- The map after a value was written under the keyword: the text has it. -/
def shadowedWorld : World :=
  { World.empty with maps := #[[(.str "a", .int 3), (.sym ⟨":a"⟩, .int 2)]] }

open scoped SampleHost in
/-- The value that was written is not read back. -/
theorem get_after_mapSet_shadowed :
    shadowingWorld.InRange (.map (.own 0)) ∧
    (Builtin.mapSet.run .unbounded (fun _ _ => pure .nil)
      [.map (.own 0), .sym ⟨":a"⟩, .int 3]).run shadowingWorld = .ok (.map (.own 0)) shadowedWorld ∧
    (Builtin.get.run .unbounded (fun _ _ => pure .nil)
      [.map (.own 0), .sym ⟨":a"⟩]).run shadowedWorld = .ok (.int 2) shadowedWorld := by
  have hrange : shadowingWorld.InRange (.map (.own 0)) := by decide
  have hset : (Builtin.mapSet.run .unbounded (fun _ _ => pure .nil)
      [.map (.own 0), .sym ⟨":a"⟩, .int 3]).run shadowingWorld =
        .ok (.map (.own 0)) shadowedWorld := by
    cbv
  obtain ⟨r, written?, hr, hmatch, hget, -⟩ := get_after_mapSet .unbounded _ hrange hset
  cases hr
  have hfirst : shadowingWorld.matchingKey? .unbounded (.sym ⟨":a"⟩)
    (shadowingWorld.entries (.own 0)) =
      .ok (some (.str "a")) := by cbv
  cases hfirst.symm.trans hmatch
  have hold : shadowingWorld.readBack (shadowingWorld.entries (.own 0))
    (some (.str "a")) (.sym ⟨":a"⟩)
      (.int 3) = .int 2 := by cbv
  rw [hold] at hget
  exact ⟨hrange, hset, hget⟩

end Maps

end TemplateLisp
