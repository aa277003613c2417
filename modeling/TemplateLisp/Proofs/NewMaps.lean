import TemplateLisp.Proofs.KeywordLookups
import TemplateLisp.Host.Sample

/-!
# Maps of pairs

`new-map` writes pairs of key and value one after the other, a text under the keyword of its name.
Where no key matches another, each pair is found again: a look-up in the map gives what one in the
list of the pairs gives (`Maps.newMap_lookups`).

The empty text is the exception. Its keyword would be a lone colon, which is a symbol of that name
and no keyword, so the empty text does not find it, but other keys named by a colon do, and a symbol
that is a lone colon is the same key.
-/

namespace TemplateLisp

namespace World

/-! ## New maps do not show in a key -/

theorem AtMostDeep.mono {w : World} {n m : Nat} {v : Value} (h : w.AtMostDeep n v) (hle : n ≤ m) :
    w.AtMostDeep m v := by
  induction hle with
  | refl => exact h
  | step _ ih => exact ih.succ

section
variable {w w' : World} (htuples : w'.tuples = w.tuples)
include htuples

theorem tuple_eq (r : TupleRef) : w'.tuple r = w.tuple r := by rw [tuple, htuples, tuple]

theorem sameKeyAt_eq (n : Nat) (a b : Value) : w'.sameKeyAt n a b = w.sameKeyAt n a b := by
  induction n generalizing a b with
  | zero => rfl
  | succ n ih => simp only [sameKeyAt, tuple_eq htuples, ih]

theorem findKey?_eq (es : List (Value × Value)) (k : Value) : w'.findKey? es k =
    w.findKey? es k := by
  have hsame (c : Value) : w'.sameKey c k = w.sameKey c k := by
    rw [sameKey, sameKey, htuples, sameKeyAt_eq htuples]
  simp only [findKey?, hsame]

theorem isKeyAt_eq (n : Nat) (v : Value) : w'.isKeyAt n v = w.isKeyAt n v := by
  induction n generalizing v with
  | zero => rfl
  | succ n ih =>
    cases v with
    | tuple r =>
      rw [isKeyAt, isKeyAt, tuple_eq htuples]
      exact congrArg (w.tuple r).all (funext ih)
    | _ => rfl

theorem isKey_eq (v : Value) : w'.isKey v = w.isKey v := by
  rw [isKey, isKey, htuples, isKeyAt_eq htuples]

variable (hvectors : w'.vectors = w.vectors)
include hvectors

theorem sequence?_eq (v : Value) : w'.sequence? v = w.sequence? v := by
  cases v with
  | vector r => rw [sequence?, sequence?, vector, hvectors, vector]
  | tuple r => rw [sequence?, sequence?, tuple_eq htuples]
  | _ => rfl

/-- Comparing a key comes to the same at any number of levels that reach down to its ground. -/
theorem equalAt_eq {m n n' : Nat} {a : Value} (ha : w.isKeyAt m a = true) (hn : w.AtMostDeep n a)
    (hn' : w.AtMostDeep n' a) (b : Value) : w'.equalAt (n' + 1) a b = w.equalAt (n + 1) a b := by
  induction m generalizing n n' a b with
  | zero => cases ha
  | succ m ih =>
    unfold equalAt
    split
    · rfl
    split
    · rfl
    · rfl
    · rfl
    · cases ha
    · cases ha
    · rw [sequence?_eq htuples hvectors, sequence?_eq htuples hvectors]
      split
      · rename_i xs ys hxs _
        refine if_congr Iff.rfl (allPairs_congr (fun x hx y => ?_) ys) rfl
        have hx' : x ∈ w.components a := by rwa [sequence?_components hxs]
        obtain ⟨n, rfl, hdeep⟩ := hn.component hx'
        obtain ⟨n', rfl, hdeep'⟩ := hn'.component hx'
        exact ih (isKeyAt_of_mem ha hxs x hx) hdeep hdeep' y
      · rfl

theorem keysMatch_of_containers (hcontainers : w.containers ≤ w'.containers) {k : Value}
    (hk : w.isKey k = true) (c : Value) :
    w'.keysMatch .unbounded k c = w.keysMatch .unbounded k c := by
  have hdeep : w.AtMostDeep (w.containers + 1) k := (atMostDeep_of_isKeyAt hk).founded.atMostDeep
  have hequal : w'.equal .unbounded k c = w.equal .unbounded k c :=
    equalAt_eq htuples hvectors hk hdeep (hdeep.mono (by omega)) c
  unfold keysMatch
  rw [hequal]

end

section
variable (w : World) (es : List (Value × Value))

theorem tuples_addMap : (w.addMap es).2.tuples = w.tuples := rfl

theorem vectors_addMap : (w.addMap es).2.vectors = w.vectors := rfl

theorem entries_newMap : (w.addMap es).2.entries (w.addMap es).1 = es :=
  (w.entries_addMap es _).trans (if_pos rfl)

theorem spineAt_addMap (n : Nat) (found : List Cell) (v : Value) :
    (w.addMap es).2.spineAt n found v = w.spineAt n found v := by
  induction n generalizing found v with
  | zero => rfl
  | succ n ih => cases v <;> first | rfl | exact ih _ _

theorem containers_addMap : (w.addMap es).2.containers = w.containers + 1 := by
  simp only [containers, addMap, Array.size_push]
  omega

variable {w}

theorem ListOf.addMap {v : Value} {items : List Value} (h : w.ListOf v items) :
    (w.addMap es).2.ListOf v items := by
  obtain ⟨cells, hcells, hitems⟩ := h
  exact ⟨cells, (w.spineAt_addMap es _ _ v).trans hcells, hitems⟩

variable {k : Value} (hk : w.isKey k = true)
include hk

theorem keysMatch_addMap (c : Value) :
    (w.addMap es).2.keysMatch .unbounded k c = w.keysMatch .unbounded k c :=
  keysMatch_of_containers (w.tuples_addMap es) (w.vectors_addMap es)
    (by rw [containers_addMap]; omega) hk c

/-- The look-up of a key does not see that a map was made. -/
theorem lookUp?_addMap (fs : List (Value × Value)) :
    (w.addMap es).2.lookUp? .unbounded fs k = w.lookUp? .unbounded fs k := by
  have hfirst : (w.addMap es).2.matchingKey? .unbounded k fs = w.matchingKey? .unbounded k fs := by
    induction fs with
    | nil => rfl
    | cons e fs ih => rw [matchingKey?, matchingKey?, keysMatch_addMap es hk, ih]
  simp only [lookUp?, findKey?_eq (w.tuples_addMap es), hfirst]

end

/-! ## The one key that matches -/

section
variable {w : World} {es front behind : List (Value × Value)} {e : Value × Value} {k : Value}

/-- The value of the first key that matches. -/
def matched? (w : World) (k : Value) (es : List (Value × Value)) : Option Value :=
  (es.find? fun e => w.Matches k e.1).map Prod.snd

theorem matched?_of_match (hfront : ∀ x ∈ front, ¬ w.Matches k x.1) (he : w.Matches k e.1) :
    w.matched? k (front ++ e :: behind) = some e.2 := by
  have hnone : (front.find? fun e => w.Matches k e.1) = none := by simpa using hfront
  rw [matched?, List.find?_append, hnone, Option.none_or, List.find?_cons, decide_eq_true he]
  rfl

theorem matched?_eq_none (h : ∀ x ∈ es, ¬ w.Matches k x.1) : w.matched? k es = none := by
  simpa [matched?] using h

theorem Unambiguous.plainKey (h : w.Unambiguous es) (he : e ∈ es) : w.PlainKey e.1 :=
  h.plain e.1 (List.mem_map_of_mem he)

/-- Where no key matches another, a key that matches one matches none of those before and
behind it. -/
theorem Unambiguous.others (h : w.Unambiguous (front ++ e :: behind)) (hk : w.PlainKey k)
    (he : w.Matches k e.1) :
    (∀ x ∈ front, ¬ w.Matches k x.1) ∧ ∀ x ∈ behind, ¬ w.Matches k x.1 := by
  have hek := hk.matches_symm he
  refine ⟨fun x hx hkx => (h.apart_front x hx).2 ((hk.matches_symm hkx).trans he),
    fun x hx hkx => ?_⟩
  have hapart := h.apart
  rw [List.map_append, List.map_cons, List.pairwise_append, List.pairwise_cons] at hapart
  exact hapart.2.1.1 x.1 (List.mem_map_of_mem hx) (hek.trans hkx)

/-- No other key matches one. -/
theorem Unambiguous.apart_others (h : w.Unambiguous (front ++ e :: behind)) :
    ∀ x ∈ front ++ behind, ¬ w.Matches x.1 e.1 := by
  have he : w.PlainKey e.1 := h.plainKey (List.mem_append_right _ List.mem_cons_self)
  obtain ⟨-, hbehind⟩ := h.others he (w.matches_self _)
  intro x hx hmatch
  rcases List.mem_append.1 hx with hx | hx
  · exact (h.apart_front x hx).2 hmatch
  · have hplain := h.plainKey (List.mem_append_right front (List.mem_cons_of_mem e hx))
    exact hbehind x hx (hplain.matches_symm hmatch)

/-- Entries whose keys match are the same. -/
theorem Unambiguous.eq_of_matches (h : w.Unambiguous es) {x : Value × Value} (hx : x ∈ es)
    (he : e ∈ es) (hmatch : w.Matches x.1 e.1) : x = e := by
  obtain ⟨front, behind, rfl⟩ := List.append_of_mem he
  rcases List.mem_append.1 hx with hx | hx
  · exact absurd hmatch (h.apart_others x (List.mem_append_left _ hx))
  · rcases List.mem_cons.1 hx with rfl | hx
    · rfl
    · exact absurd hmatch (h.apart_others x (List.mem_append_right _ hx))

theorem Unambiguous.sublist {fs : List (Value × Value)} (h : w.Unambiguous es)
    (hfs : fs.Sublist es) :
    w.Unambiguous fs where
  plain c hc := h.plain c ((hfs.map Prod.fst).subset hc)
  apart := h.apart.sublist (hfs.map Prod.fst)

/-- Each key is found under itself. -/
theorem Unambiguous.matched?_self (h : w.Unambiguous es) (he : e ∈ es) :
    w.matched? e.1 es = some e.2 := by
  have hplain := h.plainKey he
  obtain ⟨front, behind, rfl⟩ := List.append_of_mem he
  exact matched?_of_match (h.others hplain (w.matches_self _)).1 (w.matches_self _)

end

end World

/-! ## Keys as they are stored -/

namespace Symbol

/-- The name of a keyword is the text that it is made of, unless that is empty. -/
theorem bareName_keyword {s : String} (h : s ≠ "") : (keyword s).bareName = s := by
  have hname : (keyword s).name.toList = ':' :: s.toList := String.toList_append
  have hne : s.toList ≠ [] := fun hnil => h (String.toList_eq_nil_iff.1 hnil)
  obtain ⟨c, cs, hcs⟩ := List.exists_cons_of_ne_nil hne
  have hkeyword : (keyword s).isKeyword = true := by
    rw [isKeyword, hname, hcs]
    rfl
  rw [bareName, hkeyword, Bool.true_or, if_pos rfl, hname, List.tail_cons, String.ofList_toList]

theorem keyword_injective {s t : String} (h : keyword s = keyword t) : s = t := by
  have hnames : ":" ++ s = ":" ++ t := congrArg name h
  simpa using hnames

end Symbol

namespace Maps

open World (keyName? Unambiguous)

section
variable {w : World} {c k : Value}

/-- Symbols and texts are plain keys. -/
theorem plainKey_of_named {name : String} (h : keyName? c = some name) : w.PlainKey c := by
  have hatom {v : Value} (hkey : w.isKey v = true) (hcomponents : w.components v = [])
      (hv : ∀ b, v ≠ .bool b) : w.PlainKey v := by
    refine ⟨hkey, fun b hb => ?_⟩
    rcases hb.cases_head with rfl | ⟨y, hy, -⟩
    · exact hv b rfl
    · rw [hcomponents] at hy
      cases hy
  rcases World.keyName?_eq_some h with ⟨s, rfl⟩ | rfl <;> exact hatom rfl rfl nofun

theorem plainKey_storedKey (h : w.PlainKey c) : w.PlainKey (storedKey c) := by
  cases c with
  | str s => exact plainKey_of_named rfl
  | _ => exact h

/-- A stored key has the name of the key, unless that is the empty text. -/
theorem keyName?_storedKey (h : c ≠ .str "") : keyName? (storedKey c) = keyName? c := by
  cases c with
  | str s => exact congrArg some (Symbol.bareName_keyword fun hs => h (by rw [hs]))
  | _ => rfl

/-- A key without a name is stored as it is. -/
theorem storedKey_of_unnamed (h : keyName? c = none) : storedKey c = c := by
  cases c with
  | str s => cases h
  | _ => rfl

/-- A stored key is found by the keys that the key itself is found by. Where the empty text is
stored, this is so for those that have neither its name nor that of a colon. -/
theorem matches_storedKey (hk : w.PlainKey k)
    (h : c ≠ .str "" ∨ keyName? k ≠ some "" ∧ keyName? k ≠ some ":") :
    w.Matches k (storedKey c) ↔ w.Matches k c := by
  cases hc : keyName? c with
  | none => rw [storedKey_of_unnamed hc]
  | some name =>
    by_cases hempty : c = .str ""
    · obtain ⟨hkempty, hkcolon⟩ := h.resolve_left (not_not_intro hempty)
      subst hempty
      have hcolon : keyName? (storedKey (.str "")) = some ":" := rfl
      rw [World.matches_named hk.founded (.inr hc), World.matches_named hk.founded (.inr hcolon)]
      exact ⟨fun h => absurd h hkcolon, fun h => absurd h hkempty⟩
    · have hstored := keyName?_storedKey hempty
      rw [World.matches_named hk.founded (.inr hc),
        World.matches_named hk.founded (.inr (hstored.trans hc)), hstored]

/-- Where the empty text is a key, no stored key is one that it matches: it is stored under another
name, and no other key has its name. -/
theorem not_matches_emptyText {es : List (Value × Value)} (hes : w.Unambiguous es)
    (hempty : .str "" ∈ es.map Prod.fst) {e : Value × Value} (he : e ∈ es) :
    ¬ w.Matches (.str "") (storedKey e.1) := by
  intro hmatch
  have hk : w.PlainKey (.str "") := plainKey_of_named rfl
  have hname := (World.matches_named hk.founded (.inl rfl)).1 hmatch
  obtain ⟨x, hx, hxempty⟩ := List.mem_map.1 hempty
  have heempty : e.1 ≠ .str "" := by
    intro h
    rw [h] at hname
    exact absurd hname (by decide +kernel)
  have hmatch' : w.Matches x.1 e.1 := by
    rw [hxempty, World.matches_named hk.founded (.inl rfl), hname, keyName?_storedKey heempty]
  exact heempty (hes.eq_of_matches hx he hmatch' ▸ hxempty)

/-- What is stored as a lone colon. -/
theorem storedKey_eq_colon (h : storedKey c = .sym ⟨":"⟩) : c = .str "" ∨ c = .sym ⟨":"⟩ := by
  cases c with
  | str s => exact .inl (by rw [Symbol.keyword_injective (t := "") (Value.sym.inj h)])
  | _ => exact .inr h

/-- Of three keys that are stored as a lone colon two are the same. -/
theorem eq_of_storedKey_colon {a b : Value} (ha : storedKey a = .sym ⟨":"⟩)
    (hb : storedKey b = .sym ⟨":"⟩) (hc : storedKey c = .sym ⟨":"⟩) (hac : a ≠ c) (hbc : b ≠ c) :
    a = b := by
  have hacases := storedKey_eq_colon ha
  have hbcases := storedKey_eq_colon hb
  have hccases := storedKey_eq_colon hc
  grind

/-- Keys that do not match are stored under different keys, unless both are stored as a
lone colon. -/
theorem sameKey_storedKey {a b : Value} (ha : w.PlainKey a) (hb : w.PlainKey b)
    (h : w.sameKey (storedKey a) (storedKey b) = true) :
    w.Matches a b ∨ storedKey a = .sym ⟨":"⟩ ∧ storedKey b = .sym ⟨":"⟩ := by
  have hsame {x y : Value} (hxy : w.sameKey (storedKey x) (storedKey y) = true) (hx : x = .str "") :
      storedKey x = .sym ⟨":"⟩ ∧ storedKey y = .sym ⟨":"⟩ := by
    subst hx
    have hcolon : keyName? (storedKey (.str "")) = some ":" := rfl
    exact ⟨rfl, (World.sameKey_named hcolon).1 (World.sameKey_symm hxy)⟩
  by_cases haempty : a = .str ""
  · exact .inr (hsame h haempty)
  by_cases hbempty : b = .str ""
  · exact .inr (hsame (World.sameKey_symm h) hbempty).symm
  have hstored := (plainKey_storedKey ha).matches_of_sameKey (plainKey_storedKey hb) h
  have hstored' := (matches_storedKey (plainKey_storedKey ha) (.inl hbempty)).1 hstored
  have hback := (plainKey_storedKey ha).matches_symm hstored'
  exact .inl (hb.matches_symm ((matches_storedKey hb (.inl haempty)).1 hback))

end

/-! ## Writing the pairs -/

/-- An entry as it is stored. -/
def stored (e : Value × Value) : Value × Value := (storedKey e.1, e.2)

/-- Writes pairs one after the other. -/
def written (w : World) (acc es : List (Value × Value)) : List (Value × Value) :=
  es.foldl (fun acc e => w.putKey (storedKey e.1) e.2 acc) acc

section
variable {w : World} {acc es : List (Value × Value)}

theorem run_pairItems {v : Value} {e : Value × Value} (h : w.ListOf v [e.1, e.2]) (room : Room)
    (index : Nat) : (pairItems room index v).run w = .ok e w := by
  obtain ⟨r, rfl, -⟩ := h.cons_inv
  rw [pairItems, EStateM.run_bind, h.properItems room]
  rfl

theorem run_collect {args : List Value} (room : Room)
    (hargs : List.Forall₂ (fun v e => w.ListOf v [e.1, e.2]) args es)
    (hkeys : ∀ e ∈ es, w.isKey e.1 = true) (index : Nat) (acc : List (Value × Value)) :
    (collect room index acc args).run w = .ok (written w acc es) w := by
  induction hargs generalizing index acc with
  | nil => rfl
  | cons hv _ ih =>
    obtain ⟨hkey, hkeys⟩ := List.forall_mem_cons.1 hkeys
    rw [collect, EStateM.run_bind, run_pairItems hv]
    dsimp only
    rw [EStateM.run_bind, run_checkKey hkey]
    dsimp only
    rw [Run.run_look_bind, ih hkeys]
    rfl

/-- Entries under keys of their own are added one by one. -/
theorem written_of_apart
    (hacc : ∀ e ∈ es, ∀ x ∈ acc, w.sameKey x.1 (storedKey e.1) = false)
    (hes : es.Pairwise fun e e' => w.sameKey (storedKey e.1) (storedKey e'.1) = false) :
    written w acc es = acc ++ es.map stored := by
  induction es generalizing acc with
  | nil => simp [written]
  | cons e es ih =>
    obtain ⟨he, hrest⟩ := List.pairwise_cons.1 hes
    obtain ⟨heacc, hesacc⟩ := List.forall_mem_cons.1 hacc
    have hput : w.putKey (storedKey e.1) e.2 acc = acc ++ [stored e] := World.putKey_of_apart heacc
    rw [written, List.foldl_cons, hput]
    refine (ih (fun x hx y hy => ?_) hrest).trans (by simp)
    rcases List.mem_append.1 hy with hy | hy
    · exact hesacc x hx y hy
    · obtain rfl := List.mem_singleton.1 hy
      exact he x hx

/-- Where at most one of the keys is stored as a lone colon, all are stored under keys of
their own. -/
theorem stored_apart (hes : w.Unambiguous es) (hone : ∀ x ∈ es, ∀ y ∈ es,
      storedKey x.1 = .sym ⟨":"⟩ → storedKey y.1 = .sym ⟨":"⟩ → x.1 = y.1) :
    es.Pairwise fun e e' => w.sameKey (storedKey e.1) (storedKey e'.1) = false := by
  refine (List.pairwise_map.1 hes.apart).imp_of_mem fun {x y} hx hy hother => ?_
  refine Bool.eq_false_iff.2 fun hsame => hother ?_
  rcases sameKey_storedKey (hes.plainKey hx) (hes.plainKey hy) hsame with hmatch |
    ⟨hxcolon, hycolon⟩
  · exact hmatch
  · rw [hone x hx y hy hxcolon hycolon]
    exact w.matches_self _

/-- Each pair becomes an entry then. -/
theorem written_nil (hes : w.Unambiguous es) (hone : ∀ x ∈ es, ∀ y ∈ es,
      storedKey x.1 = .sym ⟨":"⟩ → storedKey y.1 = .sym ⟨":"⟩ → x.1 = y.1) :
    written w [] es = es.map stored := written_of_apart (by simp) (stored_apart hes hone)

theorem written_append (w : World) (acc es fs : List (Value × Value)) :
    written w acc (es ++ fs) = written w (written w acc es) fs := List.foldl_append

/-- If two keys are stored as a lone colon, the later pair replaces the value of the earlier one. -/
theorem written_colons {front mid behind : List (Value × Value)} {e e' : Value × Value}
    (hes : w.Unambiguous (front ++ e :: (mid ++ e' :: behind))) (he : storedKey e.1 = .sym ⟨":"⟩)
    (he' : storedKey e'.1 = .sym ⟨":"⟩) :
    written w [] (front ++ e :: (mid ++ e' :: behind)) =
      (front ++ (e.1, e'.2) :: (mid ++ behind)).map stored := by
  have hsplit : front ++ e :: (mid ++ e' :: behind) = (front ++ e :: mid) ++ e' :: behind := by simp
  rw [hsplit] at hes ⊢
  have hothers := hes.apart_others
  have hrest : w.Unambiguous ((front ++ e :: mid) ++ behind) :=
    hes.sublist ((List.sublist_cons_self _ _).append_left _)
  -- without the later pair, only `e` can be stored as a colon
  have hone {x y : Value × Value} (hx : x ∈ (front ++ e :: mid) ++ behind)
      (hy : y ∈ (front ++ e :: mid) ++ behind) (hxcolon : storedKey x.1 = .sym ⟨":"⟩)
      (hycolon : storedKey y.1 = .sym ⟨":"⟩) : x.1 = y.1 := by
    refine eq_of_storedKey_colon hxcolon hycolon he' (fun hxe' => ?_) fun hye' => ?_
    · exact hothers x hx (hxe' ▸ w.matches_self _)
    · exact hothers y hy (hye' ▸ w.matches_self _)
  have hfront : written w [] (front ++ e :: mid) = (front ++ e :: mid).map stored :=
    written_nil (hrest.sublist (List.sublist_append_left _ _)) fun x hx y hy =>
      hone (List.mem_append_left _ hx) (List.mem_append_left _ hy)
  obtain ⟨hbefore, hbehind, hacross⟩ :=
    List.pairwise_append.1 (stored_apart hrest fun x hx y hy => hone hx hy)
  have hput : w.putKey (storedKey e'.1) e'.2 (written w [] (front ++ e :: mid)) =
      (front ++ (e.1, e'.2) :: mid).map stored := by
    have hapart : ∀ x ∈ front.map stored, w.sameKey x.1 (.sym ⟨":"⟩) = false := by
      intro x hx
      obtain ⟨y, hy, rfl⟩ := List.mem_map.1 hx
      exact he ▸ (List.pairwise_append.1 hbefore).2.2 y hy e List.mem_cons_self
    rw [hfront, he', List.map_append, List.map_cons, World.putKey_append hapart, stored, he,
      World.putKey, if_pos (w.sameKey_refl _)]
    simp [stored, he]
  have hkept : ∀ b ∈ behind, ∀ x ∈ (front ++ (e.1, e'.2) :: mid).map stored,
      w.sameKey x.1 (storedKey b.1) = false := by
    intro b hb x hx
    obtain ⟨y, hy, rfl⟩ := List.mem_map.1 hx
    have hkey : y.1 ∈ (front ++ e :: mid).map Prod.fst := by
      simpa using List.mem_map_of_mem (f := Prod.fst) hy
    obtain ⟨z, hz, hzy⟩ := List.mem_map.1 hkey
    have hzb := hacross z hz b hb
    rwa [hzy] at hzb
  calc written w [] ((front ++ e :: mid) ++ e' :: behind)
      = written w (w.putKey (storedKey e'.1) e'.2 (written w [] (front ++ e :: mid))) behind :=
        written_append ..
    _ = written w ((front ++ (e.1, e'.2) :: mid).map stored) behind := by rw [hput]
    _ = (front ++ (e.1, e'.2) :: mid).map stored ++ behind.map stored :=
        written_of_apart hkept hbehind
    _ = (front ++ (e.1, e'.2) :: (mid ++ behind)).map stored := by simp

end

/-! ## Look-ups in what was written -/

section
variable {w : World} {k c v : Value} {acc es : List (Value × Value)}

theorem mem_putKey {x : Value × Value} (hx : x ∈ w.putKey c v acc) :
    x.1 = c ∨ ∃ y ∈ acc, y.1 = x.1 := by
  induction acc with
  | nil => exact .inl (by rw [List.mem_singleton.1 hx])
  | cons e acc ih =>
    rw [World.putKey] at hx
    split at hx
    · rcases List.mem_cons.1 hx with rfl | hx
      · exact .inr ⟨e, .head _, rfl⟩
      · exact .inr ⟨x, .tail _ hx, rfl⟩
    · rcases List.mem_cons.1 hx with rfl | hx
      · exact .inr ⟨_, .head _, rfl⟩
      · exact (ih hx).imp_right fun h => h.imp fun y hy => ⟨.tail _ hy.1, hy.2⟩

/-- What is written are the stored keys of the pairs and what was there. -/
theorem mem_written {x : Value × Value} (hx : x ∈ written w acc es) :
    (∃ e ∈ es, x.1 = storedKey e.1) ∨ ∃ y ∈ acc, y.1 = x.1 := by
  induction es generalizing acc with
  | nil => exact .inr ⟨x, hx, rfl⟩
  | cons e es ih =>
    rcases ih hx with ⟨e', he', hkey⟩ | ⟨y, hy, hkey⟩
    · exact .inl ⟨e', .tail _ he', hkey⟩
    · rcases mem_putKey hy with hput | ⟨z, hz, hput⟩
      · exact .inl ⟨e, .head _, hkey ▸ hput⟩
      · exact .inr ⟨z, hz, hput.trans hkey⟩

/-- A key that matches is a different one from a key that does not. -/
theorem sameKey_eq_false {x d : Value} (hx : w.PlainKey x) (hkx : ¬ w.Matches k x)
    (hd : w.PlainKey d) (hkd : w.Matches k d) : w.sameKey x d = false :=
  Bool.eq_false_iff.2 fun hsame =>
    hkx (hkd.trans (hd.matches_of_sameKey hx (World.sameKey_symm hsame)))

/-- Pairs under keys that do not match are not seen. -/
theorem lookUp?_written_other (hk : w.PlainKey k) (hacc : ∀ x ∈ acc, w.PlainKey x.1)
    (hes : ∀ e ∈ es, w.PlainKey e.1 ∧ ¬ w.Matches k (storedKey e.1)) :
    w.lookUp? .unbounded (written w acc es) k = w.lookUp? .unbounded acc k := by
  induction es generalizing acc with
  | nil => rfl
  | cons e es ih =>
    obtain ⟨⟨hplain, hother⟩, hes⟩ := List.forall_mem_cons.1 hes
    have hstored := plainKey_storedKey hplain
    have hput : ∀ x ∈ w.putKey (storedKey e.1) e.2 acc, w.PlainKey x.1 := by
      intro x hx
      rcases mem_putKey hx with hkey | ⟨y, hy, hkey⟩
      · exact hkey ▸ hstored
      · exact hkey ▸ hacc y hy
    refine (ih hput hes).trans (World.lookUp?_putKey_other (hk.eq_ok_false hother)
      (sameKey_eq_false hstored hother hk (w.matches_self k)) fun d hd hkd => ?_)
    obtain ⟨x, hx, rfl⟩ := List.mem_map.1 hd
    exact sameKey_eq_false hstored hother (hacc x hx) hkd

/-- What is written under the first key that matches is found. -/
theorem lookUp?_putKey_match (hk : w.PlainKey k) (hc : w.PlainKey c) (hmatch : w.Matches k c)
    (hacc : ∀ x ∈ acc, w.PlainKey x.1 ∧ ¬ w.Matches k x.1) :
    w.lookUp? .unbounded (w.putKey c v acc) k = .ok (some v) := by
  have hput : w.putKey c v acc = acc ++ [(c, v)] := World.putKey_of_apart fun x hx =>
    sameKey_eq_false (hacc x hx).1 (hacc x hx).2 hc hmatch
  have hfirst : w.matchingKey? .unbounded k (acc ++ [(c, v)]) = .ok (some c) := by
    rw [World.matchingKey?_append fun x hx => hk.eq_ok_false (hacc x hx).2]
    exact World.matchingKey?_of_match hmatch
  have hapart : ∀ x ∈ acc, w.sameKey x.1 k = false := fun x hx =>
    sameKey_eq_false (hacc x hx).1 (hacc x hx).2 hk (w.matches_self k)
  have habsent : w.findKey? acc k = none := by simpa [World.findKey?] using hapart
  rw [World.lookUp?, World.findKey?_putKey, habsent]
  split
  · rename_i u hu
    split at hu
    · rw [← hu]
    · cases hu
  · rw [hput, hfirst]
    refine congrArg Except.ok ?_
    rw [← hput, World.findKey?_putKey, if_pos (w.sameKey_refl c)]

/-- A look-up among the written pairs finds the value of the one pair whose key matches. -/
theorem lookUp?_written (hes : w.Unambiguous es) (hk : w.PlainKey k)
    (hstored : ∀ e ∈ es, w.Matches k (storedKey e.1) ↔ w.Matches k e.1) :
    w.lookUp? .unbounded (written w [] es) k = .ok (w.matched? k es) := by
  by_cases hex : ∃ e ∈ es, w.Matches k e.1
  · obtain ⟨e, he, hmatch⟩ := hex
    have hmatch' := (hstored e he).2 hmatch
    have hplain := hes.plainKey he
    obtain ⟨front, behind, rfl⟩ := List.append_of_mem he
    obtain ⟨hfront, hbehind⟩ := hes.others hk hmatch
    have hold : ∀ x ∈ written w [] front, w.PlainKey x.1 ∧ ¬ w.Matches k x.1 := by
      intro x hx
      obtain ⟨y, hy, hkey⟩ := (mem_written hx).resolve_right (by simp)
      have hmem := List.mem_append_left (e :: behind) hy
      rw [hkey, hstored y hmem]
      exact ⟨plainKey_storedKey (hes.plainKey hmem), hfront y hy⟩
    have hstep : written w [] (front ++ e :: behind) =
        written w (w.putKey (storedKey e.1) e.2 (written w [] front)) behind := written_append ..
    rw [World.matched?_of_match hfront hmatch, hstep, lookUp?_written_other hk]
    · exact lookUp?_putKey_match hk (plainKey_storedKey hplain) hmatch' hold
    · intro x hx
      rcases mem_putKey hx with hkey | ⟨y, hy, hkey⟩
      · exact hkey ▸ plainKey_storedKey hplain
      · exact hkey ▸ (hold y hy).1
    · intro x hx
      have hmem := List.mem_append_right front (List.mem_cons_of_mem e hx)
      exact ⟨hes.plainKey hmem, (hstored x hmem).not.2 (hbehind x hx)⟩
  · have hnone : ∀ e ∈ es, ¬ w.Matches k e.1 := fun e he hmatch => hex ⟨e, he, hmatch⟩
    rw [World.matched?_eq_none hnone, lookUp?_written_other hk (by simp) fun e he =>
      ⟨hes.plainKey he, (hstored e he).not.2 (hnone e he)⟩]
    rfl

end

/-! ## Look-ups in the list of the pairs -/

section
variable {w : World} {k : Value} {es : List (Value × Value)}
  (hk : ∀ c, World.Decides (w.keysMatch .unbounded k c))

/-- The value of a pair. -/
theorem run_entryValue {r : CellRef} {key value : Value} (h : w.ListOf (.cell r) [key, value]) :
    (w.cell r).car = key ∧ (entryValue r).run w = .ok value w := by
  obtain ⟨_, hr, hcar, hrest⟩ := h.cons_inv
  cases hr
  obtain ⟨q, hq, hvalue, -⟩ := hrest.cons_inv
  refine ⟨hcar, ?_⟩
  rw [entryValue, Run.run_look_bind, hq, ← hvalue]
  rfl

include hk

/-- The search goes to the first pair whose key matches. -/
theorem run_findEntryAt [Host] {v tail : Value} {cells : List Cell} (h : w.Spine v cells tail)
    (htail : tail = .nil)
    (hes : List.Forall₂ (fun c e => w.ListOf c.car [e.1, e.2]) cells es) {n : Nat}
    (hn : cells.length < n) (name : String) (whole : Value) {behind : Option CellRef}
    (hbehind : w.restOf whole behind = v) (index : Nat) :
    ∃ found, (findEntryAt .unbounded name k n index (.list whole behind)).run w = .ok found w ∧
      Option.Rel (fun r x => (entryValue r).run w = .ok x w) found (w.matched? k es) := by
  induction h generalizing es n behind index with
  | @stop v hv =>
    obtain ⟨m, rfl⟩ : ∃ m, n = m + 1 := ⟨n - 1, by omega⟩
    cases hes
    refine ⟨none, ?_, .none⟩
    rw [findEntryAt, Cursor.next, bind_assoc, Run.run_look_bind, hbehind, htail]
    rfl
  | @pair r cells tail rest ih =>
    simp only [List.length_cons] at hn
    obtain ⟨m, rfl⟩ : ∃ m, n = m + 1 := ⟨n - 1, by omega⟩
    cases hes with
    | @cons _ e _ es he hes =>
      obtain ⟨q, hq, -⟩ := he.cons_inv
      rw [hq] at he
      obtain ⟨hkey, hvalue⟩ := run_entryValue he
      have hstep : (findEntryAt .unbounded name k (m + 1) index (.list whole behind)).run w =
          (do if ← Run.lookOrStop fun w =>
            w.keysMatch .unbounded k (w.cell q).car then return some q
              else findEntryAt .unbounded name k m (index + 1) (.list whole (some r)) :
            Run (Option CellRef)).run w := by
        rw [findEntryAt, Cursor.next, bind_assoc, Run.run_look_bind, hbehind]
        dsimp only
        rw [bind_assoc, Run.run_look_bind, hq]
        rfl
      obtain ⟨answer, hanswer⟩ := hk e.1
      rw [hstep, EStateM.run_bind, Run.run_lookOrStop, hkey, hanswer]
      cases answer with
      | true =>
        refine ⟨some q, rfl, ?_⟩
        rw [World.matched?, List.find?_cons, decide_eq_true hanswer]
        exact .some hvalue
      | false =>
        have hother : ¬ w.Matches k e.1 := by simp [World.Matches, World.Passes, hanswer]
        have hnext : w.restOf whole (some r) = (w.cell r).cdr := rfl
        have hrest := ih (n := m) htail hes (by omega) hnext (index + 1)
        rwa [World.matched?, List.find?_cons, decide_eq_false hother]

theorem run_findEntry [Host] {list : Value} {args : List Value} (hlist : w.ListOf list args)
    (hes : List.Forall₂ (fun v e => w.ListOf v [e.1, e.2]) args es) (name : String) :
    ∃ found, (findEntry .unbounded name k list).run w = .ok found w ∧
      Option.Rel (fun r x => (entryValue r).run w = .ok x w) found (w.matched? k es) := by
  obtain ⟨cells, hcells, rfl⟩ := hlist
  obtain ⟨_, rfl, hspine, hlength⟩ := World.spine_of_spineAt hcells
  rw [List.forall₂_map_left_iff] at hes
  cases hspine with
  | stop =>
    cases hes
    exact ⟨none, rfl, .none⟩
  | @pair r cells _ rest =>
    rw [findEntry, Run.run_look_bind]
    exact run_findEntryAt hk (.pair rest) rfl hes hlength name (.cell r) rfl 0

theorem run_assocValue_list [Host] {list : Value} {args : List Value} (hlist : w.ListOf list args)
    (hes : List.Forall₂ (fun v e => w.ListOf v [e.1, e.2]) args es) :
    (assocValue .unbounded k list).run w = .ok ((w.matched? k es).getD .nil) w := by
  cases hes with
  | nil =>
    obtain rfl := hlist.nil_inv
    rfl
  | cons he hes =>
    obtain ⟨found, hrun, hfound⟩ := run_findEntry hk hlist (.cons he hes) "assoc-value"
    obtain ⟨r, rfl, -⟩ := hlist.cons_inv
    unfold assocValue
    dsimp only
    rw [EStateM.run_bind, hrun]
    generalize w.matched? k _ = value? at hfound ⊢
    cases hfound with
    | some hvalue => exact hvalue
    | none => rfl

theorem run_get_list [Host] {list : Value} {args : List Value} (hlist : w.ListOf list args)
    (hes : List.Forall₂ (fun v e => w.ListOf v [e.1, e.2]) args es) (default? : Option Value) :
    (get .unbounded list k default?).run w =
      .ok ((w.matched? k es).getD (default?.getD .nil)) w := by
  cases hes with
  | nil =>
    obtain rfl := hlist.nil_inv
    rfl
  | cons he hes =>
    obtain ⟨found, hrun, hfound⟩ := run_findEntry hk hlist (.cons he hes) "get"
    obtain ⟨r, rfl, -⟩ := hlist.cons_inv
    rw [get, EStateM.run_bind, hrun]
    generalize w.matched? k _ = value? at hfound ⊢
    cases hfound with
    | some hvalue => exact hvalue
    | none => rfl

end

/-! ## The built-in functions -/

/-- Under the key, `get` with any default and `assoc-value` find a value in the map or list, or
none. -/
structure Finds [Host] (call : Caller) (w : World) (m k : Value)
    (found? : Option Value) : Prop where
  get (default? : Option Value) :
    (Builtin.get.run .unbounded call ([m, k] ++ default?.toList)).run w =
    .ok (found?.getD (default?.getD .nil)) w
  assocValue : (Builtin.assocValue.run .unbounded call [k, m]).run w = .ok (found?.getD .nil) w

section
variable {w : World} {k : Value} {es : List (Value × Value)} (call : Caller)

/-- The built-in functions give what the look-up gives. -/
theorem finds_map [Host] {r : MapRef} {found? : Option Value} (hk : w.isKey k = true)
    (h : w.lookUp? .unbounded (w.entries r) k = .ok found?) : Finds call w (.map r) k found? where
  get default? := by
    have hget := run_get_default hk h default?
    cases default? <;> exact hget
  assocValue := by
    show (Maps.assocValue .unbounded k (.map r)).run w = _
    rw [Maps.assocValue, EStateM.run_bind, run_checkKey hk]
    dsimp only
    rw [EStateM.run_bind, run_valueAt? h]
    rfl

theorem finds_list [Host] {list : Value} {args : List Value}
    (hk : ∀ c, World.Decides (w.keysMatch .unbounded k c)) (hlist : w.ListOf list args)
    (hes : List.Forall₂ (fun v e => w.ListOf v [e.1, e.2]) args es) :
    Finds call w list k (w.matched? k es) where
  get default? := by
    have hget := run_get_list hk hlist hes default?
    cases default? <;> exact hget
  assocValue := run_assocValue_list hk hlist hes

/-- A look-up in a new map is one among its entries. -/
theorem finds_addMap [Host] {fs : List (Value × Value)} {found? : Option Value}
    (hk : w.isKey k = true) (h : w.lookUp? .unbounded fs k = .ok found?) :
    Finds call (w.addMap fs).2 (.map (w.addMap fs).1) k found? := by
  refine finds_map call ((World.isKey_eq (w.tuples_addMap fs) k).trans hk) ?_
  rw [World.lookUp?_addMap fs hk, World.entries_newMap, h]

/-- A look-up in a list does not see that a map was made. -/
theorem finds_list_addMap [Host] (fs : List (Value × Value)) {list : Value} {args : List Value}
    (hk : w.PlainKey k) (hlist : w.ListOf list args)
    (hes : List.Forall₂ (fun v e => w.ListOf v [e.1, e.2]) args es) :
    Finds call (w.addMap fs).2 list k (w.matched? k es) := by
  have hsame : (w.addMap fs).2.matched? k es = w.matched? k es := by
    simp only [World.matched?, World.Matches, World.Passes, World.keysMatch_addMap fs hk.isKey]
  rw [← hsame]
  refine finds_list call (fun c => ?_) (hlist.addMap fs) (hes.imp fun v e he => he.addMap fs)
  rw [World.keysMatch_addMap fs hk.isKey]
  exact hk.decides c

end

/-- What becomes of pairs whose keys do not match each other. Each pair is an entry of the map, in
the order of the pairs, but where the empty text and a lone colon are both keys the later pair gives
the earlier one its value and is no entry of its own. The look-up of a key gives the same in the map
and in a list of the pairs, and each key finds its value, unless the empty text is a key: then this
is so for keys that have neither its name nor that of a colon, and the empty text itself finds
nothing in the map. -/
theorem newMap_lookups [Host] (call : Caller) {w : World} {args : List Value}
    {es : List (Value × Value)} (hargs : List.Forall₂ (fun v e => w.ListOf v [e.1, e.2]) args es)
    (hes : w.Unambiguous es) :
    ∃ (r : MapRef) (w' : World),
      (Builtin.newMap.run .unbounded call args).run w = .ok (.map r) w' ∧
      (r, w') = w.addMap (w'.entries r) ∧
      (¬ (.str "" ∈ es.map Prod.fst ∧ .sym ⟨":"⟩ ∈ es.map Prod.fst) →
        w'.entries r = es.map stored) ∧
      (∀ front e mid e' behind, es = front ++ e :: (mid ++ e' :: behind) →
        storedKey e.1 = .sym ⟨":"⟩ → storedKey e'.1 = .sym ⟨":"⟩ →
        w'.entries r = (front ++ (e.1, e'.2) :: (mid ++ behind)).map stored) ∧
      (∀ k, w.PlainKey k →
        .str "" ∉ es.map Prod.fst ∨ keyName? k ≠ some "" ∧ keyName? k ≠ some ":" →
        Finds call w' (.map r) k (w.matched? k es) ∧
        ∀ list, w.ListOf list args → Finds call w' list k (w.matched? k es)) ∧
      (∀ e ∈ es, w.matched? e.1 es = some e.2) ∧
      (.str "" ∈ es.map Prod.fst → Finds call w' (.map r) (.str "") none) := by
  have hentries := w.entries_newMap (written w [] es)
  refine ⟨(w.addMap (written w [] es)).1, (w.addMap (written w [] es)).2, ?_, ?_,
    fun hcolon => ?_, fun front e mid e' behind hsplit he he' => ?_, fun k hk hname => ⟨?_,
      fun list hlist => finds_list_addMap call _ hk hlist hargs⟩,
    fun e he => hes.matched?_self he, fun hempty => ?_⟩
  · show (ofPairs .unbounded args).run w = _
    rw [ofPairs, EStateM.run_bind, run_collect .unbounded hargs fun e he => (hes.plainKey he).isKey]
    rfl
  · rw [hentries]
  · rw [hentries]
    refine written_nil hes fun x hx y hy hxcolon hycolon => ?_
    have hxkey := List.mem_map_of_mem (f := Prod.fst) hx
    have hykey := List.mem_map_of_mem (f := Prod.fst) hy
    have hxcases := storedKey_eq_colon hxcolon
    have hycases := storedKey_eq_colon hycolon
    grind
  · rw [hentries]
    subst hsplit
    exact written_colons hes he he'
  · refine finds_addMap call hk.isKey (lookUp?_written hes hk fun e he => matches_storedKey hk ?_)
    refine hname.imp_left fun habsent heq => habsent ?_
    rw [← heq]
    exact List.mem_map_of_mem he
  · have hk : w.PlainKey (.str "") := plainKey_of_named rfl
    exact finds_addMap call hk.isKey (lookUp?_written_other hk (by simp) fun e he =>
      ⟨hes.plainKey he, not_matches_emptyText hes hempty he⟩)

/-- A world with the pairs `("" 1)` and `("a" 2)`. -/
def emptyTextWorld : World :=
  { World.empty with
    cells := #[⟨.str "", .cell ⟨1⟩, none⟩, ⟨.int 1, .nil, none⟩,
      ⟨.str "a", .cell ⟨3⟩, none⟩, ⟨.int 2, .nil, none⟩] }

open scoped SampleHost in
/-- A text is found in the map of the pairs, and the empty text is not. -/
theorem newMap_lookups_emptyText :
    List.Forall₂ (fun v e => emptyTextWorld.ListOf v [e.1, e.2]) [.cell ⟨0⟩, .cell ⟨2⟩]
      [(.str "", .int 1), (.str "a", .int 2)] ∧
    emptyTextWorld.Unambiguous [(.str "", .int 1), (.str "a", .int 2)] ∧
    ∃ w' : World,
      (Builtin.newMap.run .unbounded (fun _ _ => pure .nil) [.cell ⟨0⟩, .cell ⟨2⟩]).run
        emptyTextWorld = .ok (.map (.own 0)) w' ∧
      w'.entries (.own 0) = [(.sym ⟨":"⟩, .int 1), (.sym ⟨":a"⟩, .int 2)] ∧
      (Builtin.get.run .unbounded (fun _ _ => pure .nil) [.map (.own 0), .str ""]).run w' =
        .ok .nil w' ∧
      (Builtin.get.run .unbounded (fun _ _ => pure .nil) [.map (.own 0), .str "a"]).run w' =
        .ok (.int 2) w' := by
  have hargs : List.Forall₂ (fun v e => emptyTextWorld.ListOf v [e.1, e.2]) [.cell ⟨0⟩, .cell ⟨2⟩]
      [(.str "", .int 1), (.str "a", .int 2)] := .cons ⟨_, rfl, rfl⟩ (.cons ⟨_, rfl, rfl⟩ .nil)
  have hkeys : emptyTextWorld.Unambiguous [(.str "", .int 1), (.str "a", .int 2)] := by
    refine ⟨fun c hc => ?_, List.pairwise_pair.2 (by decide +kernel)⟩
    rcases List.mem_pair.1 hc with rfl | rfl <;> exact plainKey_of_named rfl
  obtain ⟨r, w', hnew, hadd, hentries, -, hfinds, -, hempty⟩ :=
    newMap_lookups (fun _ _ => pure .nil) hargs hkeys
  obtain rfl : r = .own 0 := congrArg Prod.fst hadd
  have hfirst : emptyTextWorld.matched? (.str "a") [(.str "", .int 1), (.str "a", .int 2)] =
      some (.int 2) := by decide +kernel
  have ha := (hfinds (.str "a") (plainKey_of_named rfl) (.inr (by decide +kernel))).1.get none
  rw [hfirst] at ha
  refine ⟨hargs, hkeys, w', hnew, ?_, (hempty (by simp)).get none, ha⟩
  rw [hentries (by simp)]
  decide +kernel

end Maps

end TemplateLisp
