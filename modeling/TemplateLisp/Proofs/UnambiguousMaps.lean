import Mathlib
import TemplateLisp.Proofs.Equality
import TemplateLisp.Proofs.MapUpdates
import TemplateLisp.Host.Sample

/-!
# Maps in which no key matches another

A map tells keys apart by value, but look-ups match keys by name too, so a map can hold several keys
that match one key. If it holds none that match each other (`World.Unambiguous`), `map-set!` keeps
it so: it replaces the value of the one key that matches or puts a new entry last, and the look-up
of a key that does not match finds what it found before (`Maps.set_unambiguous`).

This is about keys that hold no truth value (`World.PlainKey`): truth values are numbers to a map
and none to the language. On plain keys the two comparisons agree: one key is equal
(`World.PlainKey.equal`) and so matches, and matching is an equivalence there whatever the maps of
the world hold, since no map is part of a key.
-/

namespace TemplateLisp

namespace World

/-! ## Keys without truth values -/

/-- The value may be a key, and no truth value lies in it. -/
structure PlainKey (w : World) (k : Value) : Prop where
  isKey : w.isKey k = true
  noTruth : ∀ b, ¬ w.Includes k (.bool b)

section
variable {w : World} {n m : Nat} {a b k : Value}

/-- What a key is made of are keys. -/
theorem isKeyAt_component (ha : w.isKeyAt (m + 1) a = true) {x : Value} (hx : x ∈ w.components a) :
    w.isKeyAt m x = true := by
  cases a with
  | tuple r => exact List.all_eq_true.1 ha x hx
  | cell r => cases ha
  | vector r => cases ha
  | map r => cases ha
  | _ => cases hx

theorem atMostDeep_of_isKeyAt (ha : w.isKeyAt m a = true) : w.AtMostDeep m a := by
  induction m generalizing a with
  | zero => cases ha
  | succ m ih => exact fun x hx => ih (isKeyAt_component ha hx)

theorem PlainKey.founded (h : w.PlainKey k) : w.Founded k :=
  (atMostDeep_of_isKeyAt h.isKey).founded

/-- Without truth values, what is one key is equal. -/
theorem equalAt_of_sameKeyAt (hsame : w.sameKeyAt m a b = true) (hdeep : w.AtMostDeep n a)
    (ha : ∀ c, ¬ w.Includes a (.bool c)) (hb : ∀ c, ¬ w.Includes b (.bool c)) :
    Passes (w.equalAt (n + 1)) a b := by
  induction m generalizing n a b with
  | zero => cases hsame
  | succ m ih =>
    refine equalAt_succ_iff.2 ?_
    rcases sameKeyAt_succ_iff.1 hsame with rfl | ⟨x, y, hx, hy, hxy⟩ | ⟨r, s, rfl, rfl, hrs⟩
    · exact .same
    · have hnumber {v : Value} {z : Number} (hz : v.numeric? = some z)
          (hv : ∀ c, ¬ w.Includes v (.bool c)) : v = .num z := by
        cases v with
        | num z' => rw [Option.some.inj hz]
        | bool c => exact absurd .refl (hv c)
        | _ => cases hz
      rw [hnumber hx ha, hnumber hy hb]
      exact .number hxy
    · obtain ⟨hlength, hzip⟩ := List.forall₂_iff_zip.1 hrs
      refine .sequence rfl rfl (List.forall₂_iff_zip.2 ⟨hlength, fun {x y} hxy => ?_⟩)
      obtain ⟨hx, hy⟩ := List.of_mem_zip hxy
      obtain ⟨n, rfl, hdeep'⟩ := hdeep.component hx
      exact ih (hzip hxy) hdeep' (fun c hc => ha c (.head hx hc)) fun c hc => hb c (.head hy hc)

/-- No map is part of a key, so equality of keys is symmetric also in a world in which a map holds
one key twice. -/
theorem equalAt_symm_of_isKeyAt (ha : w.isKeyAt m a = true) (h : Passes (w.equalAt n) a b) :
    Passes (w.equalAt n) b a := by
  induction n generalizing m a b with
  | zero => cases h
  | succ n ih =>
    obtain ⟨m, rfl⟩ : ∃ i, m = i + 1 := by
      cases m with
      | zero => cases ha
      | succ m => exact ⟨m, rfl⟩
    refine equalAt_succ_iff.2 ?_
    cases equalAt_succ_iff.1 h with
    | same => exact .same
    | number value => exact .number (Number.eqv_symm value)
    | pair => cases ha
    | map => cases ha
    | sequence left right items =>
      obtain ⟨hlength, hzip⟩ := List.forall₂_iff_zip.1 items
      have hback : List.Forall₂ (fun x y => Passes (w.equalAt n) y x) _ _ :=
        List.forall₂_iff_zip.2 ⟨hlength, fun hxy =>
          ih (isKeyAt_of_mem ha left _ (List.of_mem_zip hxy).1) (hzip hxy)⟩
      exact .sequence right left hback.flip

end

/-! ## Matching -/

section
variable {w : World} {a b c k : Value}

/-- The two keys match. -/
abbrev Matches (w : World) (a b : Value) : Prop := Passes (w.keysMatch .unbounded) a b

theorem matches_self (w : World) (a : Value) : w.Matches a a := keysMatch_of_equal (w.equal_self a)

theorem Matches.trans (hab : w.Matches a b) (hbc : w.Matches b c) : w.Matches a c :=
  keysMatch_trans hab hbc

theorem PlainKey.matches_symm (ha : w.PlainKey a) (h : w.Matches a b) : w.Matches b a :=
  keysMatch_symm (equalAt_symm_of_isKeyAt ha.isKey) h

/-- Without truth values, what is one key matches. -/
theorem PlainKey.matches_of_sameKey (ha : w.PlainKey a) (hb : w.PlainKey b)
    (h : w.sameKey a b = true) : w.Matches a b :=
  keysMatch_of_equal (equalAt_of_sameKeyAt h ha.founded.atMostDeep ha.noTruth hb.noTruth)

/-- A plain key matches or it does not. -/
theorem PlainKey.decides (hk : w.PlainKey k) (c : Value) : Decides (w.keysMatch .unbounded k c) :=
  decides_keysMatch (hk.founded.equal c)

theorem PlainKey.eq_ok_false (hk : w.PlainKey k) (h : ¬ w.Matches k c) :
    w.keysMatch .unbounded k c = .ok false := by
  obtain ⟨answer, hanswer⟩ := hk.decides c
  cases answer with
  | true => exact absurd hanswer h
  | false => exact hanswer

end

/-! ## The first key that matches -/

section
variable {w : World} {room : Room} {k c v : Value} {es : List (Value × Value)}

theorem matchingKey?_of_match {e : Value × Value} (h : Passes (w.keysMatch room) k e.1) :
    w.matchingKey? room k (e :: es) = .ok (some e.1) := by
  rw [matchingKey?, show w.keysMatch room k e.1 = _ from h]
  rfl

theorem matchingKey?_of_other {e : Value × Value} (h : w.keysMatch room k e.1 = .ok false) :
    w.matchingKey? room k (e :: es) = w.matchingKey? room k es := by
  rw [matchingKey?, h]
  rfl

/-- The key that is found matches. -/
theorem keysMatch_of_matchingKey? (h : w.matchingKey? room k es = .ok (some c)) :
    Passes (w.keysMatch room) k c := by
  induction es with
  | nil => cases h
  | cons e es ih =>
    cases hmatch : w.keysMatch room k e.1 with
    | error s =>
      rw [matchingKey?, hmatch] at h
      cases h
    | ok answer =>
      cases answer with
      | true =>
        cases (matchingKey?_of_match hmatch).symm.trans h
        exact hmatch
      | false => exact ih ((matchingKey?_of_other hmatch).symm.trans h)

/-- Keys that do not match are passed over. -/
theorem matchingKey?_append {before : List (Value × Value)}
    (h : ∀ x ∈ before, w.keysMatch room k x.1 = .ok false) :
    w.matchingKey? room k (before ++ es) = w.matchingKey? room k es := by
  induction before with
  | nil => rfl
  | cons e before ih =>
    obtain ⟨he, hbefore⟩ := List.forall_mem_cons.1 h
    rw [List.cons_append, matchingKey?_of_other he, ih hbefore]

/-- The search for a key that matches a plain one comes to an end. -/
theorem PlainKey.matchingKey? (hk : w.PlainKey k) (es : List (Value × Value)) :
    ∃ found?, w.matchingKey? .unbounded k es = .ok found? := by
  induction es with
  | nil => exact ⟨none, rfl⟩
  | cons e es ih =>
    obtain ⟨answer, hanswer⟩ := hk.decides e.1
    cases answer with
    | true => exact ⟨_, matchingKey?_of_match hanswer⟩
    | false => rwa [matchingKey?_of_other hanswer]

/-- Entries under other keys stay in front of what is written. -/
theorem putKey_append {before : List (Value × Value)} (h : ∀ x ∈ before, w.sameKey x.1 c = false) :
    w.putKey c v (before ++ es) = before ++ w.putKey c v es := by
  induction before with
  | nil => rfl
  | cons e before ih =>
    obtain ⟨he, hbefore⟩ := List.forall_mem_cons.1 h
    rw [List.cons_append, putKey, if_neg (by simp [he]), ih hbefore, List.cons_append]

/-- Among entries under other keys, what is written becomes an entry behind them. -/
theorem putKey_of_apart (h : ∀ x ∈ es, w.sameKey x.1 c = false) : w.putKey c v es =
    es ++ [(c, v)] := by
  have hput : w.putKey c v (es ++ []) = es ++ w.putKey c v [] := putKey_append h
  rwa [List.append_nil] at hput

/-- What is written under a key that does not match is passed over. -/
theorem matchingKey?_putKey (h : w.keysMatch room k c = .ok false) :
    w.matchingKey? room k (w.putKey c v es) = w.matchingKey? room k es := by
  induction es with
  | nil => exact matchingKey?_of_other h
  | cons e es ih =>
    rw [putKey]
    split
    · rfl
    · rw [matchingKey?, matchingKey?, ih]

/-- A write is not seen by the look-up of a key that does not match the one that is written. -/
theorem lookUp?_putKey_other (h : w.keysMatch room k c = .ok false)
    (hself : w.sameKey c k = false) (hfound : ∀ d ∈ es.map Prod.fst, Passes (w.keysMatch room) k d →
      w.sameKey c d = false) :
    w.lookUp? room (w.putKey c v es) k = w.lookUp? room es k := by
  rw [lookUp?, lookUp?, findKey?_putKey, hself, matchingKey?_putKey h, if_neg Bool.false_ne_true]
  cases w.findKey? es k with
  | some u => rfl
  | none =>
    cases hmatch : w.matchingKey? room k es with
    | error s => rfl
    | ok found? =>
      cases found? with
      | none => rfl
      | some d =>
        refine congrArg Except.ok ?_
        rw [findKey?_putKey, hfound d (matchingKey?_mem hmatch) (keysMatch_of_matchingKey? hmatch),
          if_neg Bool.false_ne_true]

/-- The look-up of a plain key comes to an end. -/
theorem PlainKey.lookUp? (hk : w.PlainKey k) (es : List (Value × Value)) :
    ∃ found?, w.lookUp? .unbounded es k = .ok found? := by
  rw [World.lookUp?]
  cases w.findKey? es k with
  | some u => exact ⟨_, rfl⟩
  | none =>
    obtain ⟨found?, hfound⟩ := hk.matchingKey? es
    rw [hfound]
    cases found? with
    | none => exact ⟨_, rfl⟩
    | some c => exact ⟨_, rfl⟩

end

/-! ## Maps in which no key matches another -/

/-- All keys are plain, and none matches one that comes later. -/
structure Unambiguous (w : World) (es : List (Value × Value)) : Prop where
  plain : ∀ c ∈ es.map Prod.fst, w.PlainKey c
  apart : (es.map Prod.fst).Pairwise fun a b => ¬ w.Matches a b

section
variable {w : World} {k : Value} {es front behind : List (Value × Value)} {e : Value × Value}

/-- A key may be added that no key matches. -/
theorem Unambiguous.append (h : w.Unambiguous es) (hk : w.PlainKey k)
    (habsent : ∀ x ∈ es, ¬ w.Matches k x.1) (v : Value) : w.Unambiguous (es ++ [(k, v)]) := by
  have hkeys : (es ++ [(k, v)]).map Prod.fst = es.map Prod.fst ++ [k] := by simp
  constructor <;> rw [hkeys]
  · exact List.forall_mem_append.2 ⟨h.plain, by simpa using hk⟩
  · refine List.pairwise_append.2 ⟨h.apart, List.pairwise_singleton ..,
      fun c hc c' hc' hmatch => ?_⟩
    obtain ⟨x, hx, rfl⟩ := List.mem_map.1 hc
    rw [List.mem_singleton.1 hc'] at hmatch
    exact habsent x hx ((h.plain x.1 hc).matches_symm hmatch)

/-- The value of a key may become another. -/
theorem Unambiguous.replace (h : w.Unambiguous (front ++ e :: behind)) (v : Value) :
    w.Unambiguous (front ++ (e.1, v) :: behind) := by
  have hkeys : (front ++ (e.1, v) :: behind).map Prod.fst =
    (front ++ e :: behind).map Prod.fst := by
    simp
  constructor <;> rw [hkeys]
  exacts [h.plain, h.apart]

/-- The keys in front of one do not match it. -/
theorem Unambiguous.apart_front (h : w.Unambiguous (front ++ e :: behind)) :
    ∀ x ∈ front, w.PlainKey x.1 ∧ ¬ w.Matches x.1 e.1 := by
  intro x hx
  refine ⟨h.plain x.1 (by simp [List.mem_map_of_mem hx]), ?_⟩
  have hapart := h.apart
  rw [List.map_append, List.map_cons, List.pairwise_append] at hapart
  exact hapart.2.2 x.1 (List.mem_map_of_mem hx) e.1 List.mem_cons_self

/-- The one key that matches is written to, in its place. -/
theorem Unambiguous.putKey_of_match (h : w.Unambiguous (front ++ e :: behind)) (hk : w.PlainKey k)
    (hmatch : w.Matches k e.1) (v : Value) :
    w.matchingKey? .unbounded k (front ++ e :: behind) = .ok (some e.1) ∧
    w.putKey e.1 v (front ++ e :: behind) = front ++ (e.1, v) :: behind := by
  have he : w.PlainKey e.1 := h.plain e.1 (by simp)
  have hothers : ∀ x ∈ front, w.keysMatch .unbounded k x.1 = .ok false := by
    refine fun x hx => hk.eq_ok_false fun hother => (h.apart_front x hx).2 ?_
    exact (hk.matches_symm hother).trans hmatch
  have hsame : ∀ x ∈ front, w.sameKey x.1 e.1 = false := by
    refine fun x hx => Bool.eq_false_iff.2 fun hsame => (h.apart_front x hx).2 ?_
    exact (h.apart_front x hx).1.matches_of_sameKey he hsame
  rw [matchingKey?_append hothers, matchingKey?_of_match hmatch, putKey_append hsame, World.putKey,
    if_pos (w.sameKey_refl e.1)]
  exact ⟨rfl, rfl⟩

/-- Where no key matches, an entry is added. -/
theorem Unambiguous.putKey_of_absent (h : w.Unambiguous es) (hk : w.PlainKey k)
    (habsent : ∀ x ∈ es, ¬ w.Matches k x.1) (v : Value) :
    w.matchingKey? .unbounded k es = .ok none ∧ w.putKey k v es = es ++ [(k, v)] := by
  have hsame : ∀ x ∈ es, w.sameKey x.1 k = false := by
    intro x hx
    have hplain := h.plain x.1 (List.mem_map_of_mem hx)
    exact Bool.eq_false_iff.2 fun hsame =>
      habsent x hx (hplain.matches_symm (hplain.matches_of_sameKey hk hsame))
  have hfirst : w.matchingKey? .unbounded k (es ++ []) = w.matchingKey? .unbounded k [] :=
    matchingKey?_append fun x hx => hk.eq_ok_false (habsent x hx)
  rw [List.append_nil] at hfirst
  exact ⟨hfirst, putKey_of_apart hsame⟩

/-- The key that is written to matches the one that is given, and no key matches another
afterwards. -/
theorem Unambiguous.putKey (h : w.Unambiguous es) (hk : w.PlainKey k) {written? : Option Value}
    (hfirst : w.matchingKey? .unbounded k es = .ok written?) (v : Value) :
    w.PlainKey (written?.getD k) ∧ w.Matches k (written?.getD k) ∧
    w.Unambiguous (w.putKey (written?.getD k) v es) := by
  by_cases hex : ∃ e ∈ es, w.Matches k e.1
  · obtain ⟨e, he, hmatch⟩ := hex
    obtain ⟨front, behind, rfl⟩ := List.append_of_mem he
    obtain ⟨hfirst', hput⟩ := h.putKey_of_match hk hmatch v
    obtain rfl : written? = some e.1 := Except.ok.inj (hfirst.symm.trans hfirst')
    refine ⟨h.plain _ (List.mem_map_of_mem he), hmatch, ?_⟩
    rw [Option.getD_some, hput]
    exact h.replace v
  · have habsent : ∀ e ∈ es, ¬ w.Matches k e.1 := fun e he hmatch => hex ⟨e, he, hmatch⟩
    obtain ⟨hfirst', hput⟩ := h.putKey_of_absent hk habsent v
    obtain rfl : written? = none := Except.ok.inj (hfirst.symm.trans hfirst')
    refine ⟨hk, w.matches_self k, ?_⟩
    rw [Option.getD_none, hput]
    exact h.append hk habsent v

/-- The look-up of a key that does not match the given one does not see the write. -/
theorem Unambiguous.lookUp?_putKey (h : w.Unambiguous es) {c k' : Value} (hk : w.PlainKey k)
    (hk' : w.PlainKey k') (hc : w.PlainKey c) (hmatch : w.Matches k c) (hother : ¬ w.Matches k' k)
    (v : Value) :
    w.lookUp? .unbounded (w.putKey c v es) k' = w.lookUp? .unbounded es k' := by
  -- no key that `k'` matches is the one that is written to
  have hseparate : ∀ d, w.PlainKey d → w.Matches k' d → w.sameKey c d = false := by
    intro d hd hk'd
    refine Bool.eq_false_iff.2 fun hsame => hother (hk.matches_symm ?_)
    exact (hmatch.trans (hc.matches_of_sameKey hd hsame)).trans (hk'.matches_symm hk'd)
  refine lookUp?_putKey_other (hk'.eq_ok_false fun hk'c => ?_)
    (hseparate k' hk' (w.matches_self k')) fun d hd => hseparate d (h.plain d hd)
  exact hother (hk'c.trans (hk.matches_symm hmatch))

end

/-! ## A write leaves keys as they are -/

section
variable {w : World} {m : Nat} {k : Value} {es : List (Value × Value)} (r : MapRef)
  (fs : List (Value × Value))

theorem includes_setEntries (hk : w.isKeyAt m k = true) {x : Value}
    (h : (w.setEntries r fs).Includes k x) : w.Includes k x := by
  induction m generalizing k with
  | zero => cases hk
  | succ m ih =>
    rcases h.cases_head with rfl | ⟨y, hy, hyx⟩
    · exact .refl
    · -- a map is no key, so the components are those from before the write
      have hmem : y ∈ w.components k := by
        cases k with
        | cell s | vector s | map s => cases hk
        | tuple s =>
          have hitem : y ∈ (w.setEntries r fs).tuple s := hy
          rwa [tuple_setEntries] at hitem
        | _ => exact hy
      exact (ih (isKeyAt_component hk hmem) hyx).head hmem

theorem PlainKey.setEntries (hk : w.PlainKey k) : (w.setEntries r fs).PlainKey k where
  isKey := (isKey_setEntries r fs k).trans hk.isKey
  noTruth b hb := hk.noTruth b (includes_setEntries r fs hk.isKey hb)

theorem Unambiguous.setEntries (h : w.Unambiguous es) : (w.setEntries r fs).Unambiguous es where
  plain c hc := (h.plain c hc).setEntries r fs
  apart := h.apart.imp_of_mem fun {a b} ha _ hapart hmatch => hapart <| by
    rwa [Matches, Passes, keysMatch_setEntries r fs _ (h.plain a ha).isKey] at hmatch

end

end World

/-! ## The built-in functions -/

namespace Maps

/-- A write to a map in which no key matches another leaves it so. If some key matches the one that
is given, its value is replaced, in its place; otherwise the given key comes last with the value.
The look-up of any key that does not match the given one has the same outcome before and after. All
keys are without truth values here. -/
theorem set_unambiguous [Host] (call : Caller) {w : World} {r : MapRef} (hr : w.InRange (.map r))
    (hes : w.Unambiguous (w.entries r)) {k : Value} (hk : w.PlainKey k) (v : Value) :
    ∃ w' : World,
      (Builtin.mapSet.run .unbounded call [.map r, k, v]).run w = .ok (.map r) w' ∧
      w' = w.setEntries r (w'.entries r) ∧
      w'.Unambiguous (w'.entries r) ∧
      (∀ front e behind, w.entries r = front ++ e :: behind → w.Matches k e.1 →
        w'.entries r = front ++ (e.1, v) :: behind) ∧
      ((∀ e ∈ w.entries r, ¬ w.Matches k e.1) → w'.entries r = w.entries r ++ [(k, v)]) ∧
      ∀ k', w.PlainKey k' → ¬ w.Matches k' k → ∀ default? : Option Value, ∃ found,
        (Builtin.get.run .unbounded call ([.map r, k'] ++ default?.toList)).run w = .ok found w ∧
        (Builtin.get.run .unbounded call ([.map r, k'] ++ default?.toList)).run w' =
          .ok found w' := by
  obtain ⟨written?, hfirst⟩ := hk.matchingKey? (w.entries r)
  obtain ⟨hc, hmatch, hwritten⟩ := hes.putKey hk hfirst v
  have hentries (fs : List (Value × Value)) : (w.setEntries r fs).entries r = fs :=
    World.entries_setEntries_self fs hr
  refine ⟨_, run_set hk.isKey hfirst v, ?_⟩
  rw [hentries]
  refine ⟨rfl, hwritten.setEntries r _, fun front e behind hsplit hmatch => ?_, fun habsent => ?_,
    fun k' hk' hother default? => ?_⟩
  · rw [hsplit] at hes hfirst ⊢
    obtain ⟨hfirst', hput⟩ := hes.putKey_of_match hk hmatch v
    obtain rfl : written? = some e.1 := Except.ok.inj (hfirst.symm.trans hfirst')
    exact hput
  · obtain ⟨hfirst', hput⟩ := hes.putKey_of_absent hk habsent v
    obtain rfl : written? = none := Except.ok.inj (hfirst.symm.trans hfirst')
    exact hput
  · obtain ⟨found?, hfound⟩ := hk'.lookUp? (w.entries r)
    have hfound' {fs : List (Value × Value)} (h : w.lookUp? .unbounded fs k' = .ok found?) :
        (w.setEntries r fs).lookUp? .unbounded ((w.setEntries r fs).entries r) k' = .ok found? := by
      rw [hentries, World.lookUp?_setEntries r fs _ hk'.isKey, h]
    have hlook := hfound' ((hes.lookUp?_putKey hk hk' hc hmatch hother v).trans hfound)
    refine ⟨found?.getD (default?.getD .nil), ?_⟩
    cases default? with
    | none =>
      exact ⟨run_get_default hk'.isKey hfound none,
        run_get_default (hk'.setEntries r _).isKey hlook none⟩
    | some d =>
      exact ⟨run_get_default hk'.isKey hfound (some d),
        run_get_default (hk'.setEntries r _).isKey hlook (some d)⟩

/-- A map with a keyword and a text as keys. -/
def twoNames : World :=
  { World.empty with
    maps := #[[(.sym ⟨":a"⟩, .int 1), (.str "b", .int 2)]] }

open scoped SampleHost in
/-- The text of the same name is written under the keyword, and the look-up of the other name gives
what it gave before. -/
theorem set_unambiguous_twoNames :
    twoNames.InRange (.map (.own 0)) ∧ twoNames.Unambiguous (twoNames.entries (.own 0)) ∧
    twoNames.PlainKey (.str "a") ∧ twoNames.PlainKey (.sym ⟨"b"⟩) ∧
    ¬ twoNames.Matches (.sym ⟨"b"⟩) (.str "a") ∧
    ∃ w' : World,
      (Builtin.mapSet.run .unbounded (fun _ _ => pure .nil)
        [.map (.own 0), .str "a", .int 3]).run twoNames = .ok (.map (.own 0)) w' ∧
      w'.entries (.own 0) = [(.sym ⟨":a"⟩, .int 3), (.str "b", .int 2)] ∧
      (Builtin.get.run .unbounded (fun _ _ => pure .nil) [.map (.own 0), .sym ⟨"b"⟩]).run w' =
        .ok (.int 2) w' := by
  have hatom {k : Value} (hkey : twoNames.isKey k = true) (hcomponents : twoNames.components k = [])
      (hne : ∀ b, k ≠ .bool b) : twoNames.PlainKey k := by
    refine ⟨hkey, fun b hb => ?_⟩
    rcases hb.cases_head with rfl | ⟨y, hy, -⟩
    · exact hne b rfl
    · rw [hcomponents] at hy
      cases hy
  have ha : twoNames.PlainKey (.str "a") := hatom (by decide) rfl nofun
  have hb : twoNames.PlainKey (.sym ⟨"b"⟩) := hatom (by decide) rfl nofun
  have hrange : twoNames.InRange (.map (.own 0)) := by decide
  have hkeys : twoNames.Unambiguous (twoNames.entries (.own 0)) := by
    refine ⟨fun c hc => ?_, ?_⟩
    · rcases List.mem_pair.1 hc with rfl | rfl <;> exact hatom (by decide) rfl nofun
    · exact List.pairwise_pair.2 (by decide +kernel)
  have hother : ¬ twoNames.Matches (.sym ⟨"b"⟩) (.str "a") := by decide +kernel
  obtain ⟨w', hset, -, -, hreplaced, -, hget⟩ :=
    set_unambiguous (fun _ _ => pure .nil) hrange hkeys ha (.int 3)
  obtain ⟨found, hbefore, hafter⟩ := hget (.sym ⟨"b"⟩) hb hother none
  have hvalue : (Builtin.get.run .unbounded (fun _ _ => pure .nil)
      [.map (.own 0), .sym ⟨"b"⟩]).run twoNames = .ok (.int 2) twoNames := by cbv
  cases hvalue.symm.trans hbefore
  exact ⟨hrange, hkeys, ha, hb, hother, w', hset, hreplaced [] _ _ rfl (by decide +kernel), hafter⟩

end Maps

end TemplateLisp
