import StepFlow.Proofs.Path.Tokens

/-!
# Stable parsers

What a parser reads of a text may depend on what comes after it: a name goes on as long as there are characters
for it, and an alternative may miss only because of a character far behind. A stable parser depends on no more than
a relation between the two rests (`Parser.Stable`). The combinators of the grammar keep this, and the tokens have
it, each with the characters that it starts with and those that may follow.

The rests are compared by how they start: `Opens` says that they start with the same character, and that the second
goes on with one of a set after blanks.
-/

namespace StepFlow

/-! ### How texts start -/

def blankChars : List Char := [' ', '\n', '\t', '\r']

theorem mem_blankChars {c : Char} (h : Draft.isBlank c) : c ∈ blankChars := by
  simpa [Draft.isBlank, blankChars, or_assoc] using h

theorem avoids_dropWhile (test : Char → Bool) (cs : List Char) : Avoids test (cs.dropWhile test) := fun c hc => by
  have h := List.head?_dropWhile_not test cs
  rw [hc] at h
  simpa using h

theorem avoids_skipBlanks (cs : List Char) : Avoids Draft.isBlank (Draft.skipBlanks cs) := avoids_dropWhile _ cs

theorem skipBlanks_eq {cs : List Char} (h : Avoids Draft.isBlank cs) : Draft.skipBlanks cs = cs := by
  cases cs with
  | nil => rfl
  | cons c cs => simp [Draft.skipBlanks, h c rfl]

/-- The blanks in front of a text. -/
theorem exists_blanks (cs : List Char) : ∃ w, cs = w ++ Draft.skipBlanks cs ∧ ∀ c ∈ w, Draft.isBlank c :=
  ⟨cs.takeWhile Draft.isBlank, List.takeWhile_append_dropWhile.symm, fun _ => List.mem_takeWhile_imp⟩

theorem skipBlanks_append {w cs : List Char} (h : ∀ c ∈ w, Draft.isBlank c) :
    Draft.skipBlanks (w ++ cs) = Draft.skipBlanks cs :=
  List.dropWhile_append_of_pos h

/-- The texts start with the same character, and after blanks the second one goes on with one of the set. -/
def Opens (set t t' : List Char) : Prop := t.head? = t'.head? ∧ Front set (Draft.skipBlanks t')

namespace Opens

variable {set other t t' : List Char} {c : Char} {test : Char → Bool}

theorem cons (hc : c ∈ set) (hblank : Draft.isBlank c = false) : Opens set (c :: t) (c :: t') :=
  ⟨rfl, by rw [skipBlanks_eq (.cons hblank)]; exact .cons hc⟩

theorem mono (hset : set.all other.contains) (h : Opens set t t') : Opens other t t' := ⟨h.1, h.2.mono hset⟩

/-- Neither a blank nor a character of the set satisfies the test. -/
theorem avoids (hset : (blankChars ++ set).all fun c => !test c) (h : Opens set t t') : Avoids test t' := by
  intro c hc
  rw [List.all_append, Bool.and_eq_true] at hset
  by_cases hblank : Draft.isBlank c
  · simpa using List.all_eq_true.1 hset.1 c (mem_blankChars hblank)
  · obtain ⟨d, ds, hds, hd⟩ := h.2
    have ht : Draft.skipBlanks t' = t' := skipBlanks_eq fun c' hc' => by
      rw [Option.mem_unique hc' hc]
      simpa using hblank
    rw [ht] at hds
    rw [hds] at hc
    obtain rfl : d = c := Option.some.inj hc
    simpa using List.all_eq_true.1 hset.2 d hd

theorem avoids_skipBlanks (hset : set.all fun c => !test c) (h : Opens set t t') :
    Avoids test (Draft.skipBlanks t') := fun c hc => by
  obtain ⟨d, ds, hds, hd⟩ := h.2
  rw [hds] at hc
  obtain rfl : d = c := Option.some.inj hc
  simpa using List.all_eq_true.1 hset d hd

/-- A text that starts without blanks goes on without. -/
theorem skipBlanks_eq (h : Opens set t t') (ht : Avoids Draft.isBlank t) : Draft.skipBlanks t' = t' :=
  StepFlow.skipBlanks_eq fun c hc => ht c (h.1 ▸ hc)

theorem disjoint {u : List Char} (hset : set.all fun c => !other.contains c) (h : Opens set t t')
    (h' : Opens other u t') : False := by
  obtain ⟨c, cs, hcs, hc⟩ := h.2
  obtain ⟨d, ds, hds, hd⟩ := h'.2
  rw [hcs] at hds
  obtain ⟨rfl, -⟩ := List.cons.inj hds
  have hc' : c ∉ other := by simpa using List.all_eq_true.1 hset c hc
  exact hc' hd

end Opens

/-- Any text may follow. -/
def Anything (_ _ : List Char) : Prop := True

/-- The texts start with the same character, and it satisfies the test. -/
def Hits (test : Char → Bool) (t t' : List Char) : Prop := t.head? = t'.head? ∧ ∃ c ∈ t'.head?, test c

/-- If the first text does not start with what satisfies the test, the second does not either. -/
def KeepsOff (test : Char → Bool) (t t' : List Char) : Prop := Avoids test t → Avoids test t'

/-- The texts start with the character, and what follows it is related. -/
def After (c : Char) (S : List Char → List Char → Prop) (t t' : List Char) : Prop :=
  ∃ r r', t = c :: r ∧ t' = c :: r' ∧ S r r'

theorem After.opens {c : Char} {set t t' : List Char} {S : List Char → List Char → Prop} (hc : c ∈ set)
    (hblank : Draft.isBlank c = false) (h : After c S t t') : Opens set t t' := by
  obtain ⟨r, r', rfl, rfl, -⟩ := h
  exact .cons hc hblank

theorem Hits.opens {test : Char → Bool} {set t t' : List Char} (hset : ∀ c, test c → c ∈ set)
    (hblank : ∀ c, test c → Draft.isBlank c = false) (h : Hits test t t') : Opens set t t' := by
  obtain ⟨hhead, c, hc, htest⟩ := h
  obtain ⟨r', rfl⟩ := List.head?_eq_some_iff.1 hc
  obtain ⟨r, rfl⟩ := List.head?_eq_some_iff.1 (hhead.trans hc)
  exact .cons (hset c htest) (hblank c htest)

theorem Hits.avoids {test other : Char → Bool} {t t' : List Char} (hother : ∀ c, test c → other c = false)
    (h : Hits test t t') : Avoids other t' := fun d hd => by
  obtain ⟨-, c, hc, htest⟩ := h
  rw [Option.mem_unique hd hc]
  exact hother c htest

namespace Parser

variable {α β : Type} {n : Nat} {S S' T F F' G : List Char → List Char → Prop} {p p' q q' : Parser α}
  {f g : α → Parser β} {a : α} {b : β} {as : List α} {cs mid w rest : List Char} {c : Char}

/-! ### Replies taken apart -/

theorem bind_eq_ok (h : (p >>= f) cs = .ok b rest) : ∃ a mid, p cs = .ok a mid ∧ f a mid = .ok b rest := by
  change Parser.bind p f cs = _ at h
  rw [Parser.bind] at h
  cases hp : p cs with
  | ok a mid =>
    rw [hp] at h
    exact ⟨a, mid, rfl, h⟩
  | miss => rw [hp] at h; cases h
  | halt mid => rw [hp] at h; cases h

theorem orElse_eq_ok (h : orElse p q cs = .ok a rest) :
    p cs = .ok a rest ∨ p cs = .miss ∧ q cs = .ok a rest := by
  rw [orElse] at h
  cases hp : p cs with
  | miss => rw [hp] at h; exact .inr ⟨rfl, h⟩
  | ok a' mid => rw [hp] at h; exact .inl h
  | halt mid => rw [hp] at h; cases h

theorem optional_eq_ok {a : Option α} (h : optional p cs = .ok a rest) :
    (∃ b, a = some b ∧ p cs = .ok b rest) ∨ a = none ∧ rest = cs ∧ p cs = .miss := by
  rw [optional] at h
  cases hp : p cs with
  | ok b mid => rw [hp] at h; cases h; exact .inl ⟨b, rfl, rfl⟩
  | miss => rw [hp] at h; cases h; exact .inr ⟨rfl, rfl, rfl⟩
  | halt mid => rw [hp] at h; cases h

theorem many_cons_iff (h : p cs = .ok a mid) (hmid : mid.length < cs.length) :
    many p cs = .ok as rest ↔ ∃ more, as = a :: more ∧ many p mid = .ok more rest := by
  rw [many, h]
  simp only [hmid, if_true]
  cases many p mid with
  | ok more last =>
    constructor
    · rintro ⟨⟩
      exact ⟨more, rfl, rfl⟩
    · rintro ⟨_, rfl, ⟨⟩⟩
      rfl
  | miss => simp
  | halt last => simp

theorem many_eq_cons (h : many p cs = .ok (a :: as) rest) :
    ∃ mid, p cs = .ok a mid ∧ mid.length < cs.length ∧ many p mid = .ok as rest := by
  cases hp : p cs with
  | ok b mid =>
    by_cases hmid : mid.length < cs.length
    · obtain ⟨_, ⟨⟩, hmore⟩ := (many_cons_iff hp hmid).1 h
      exact ⟨mid, rfl, hmid, hmore⟩
    · rw [many, hp] at h
      simp [hmid] at h
  | miss => rw [many_miss hp] at h; cases h
  | halt mid => rw [many, hp] at h; cases h

theorem char_eq_ok {u : Unit} (h : char c cs = .ok u rest) : cs = c :: rest := by
  cases cs with
  | nil => cases h
  | cons d cs =>
    rw [char] at h
    split at h
    · rename_i hd
      cases h
      rw [hd]
    · cases h

theorem text_eq_ok {u : Unit} (h : text w cs = .ok u rest) : cs = w ++ rest := by
  induction w generalizing cs with
  | nil => cases h; rfl
  | cons c w ih =>
    obtain ⟨⟨⟩, mid, hc, hw⟩ := bind_eq_ok h
    rw [char_eq_ok hc, ih hw]
    rfl

theorem span_eq_ok {test : Char → Bool} (h : span test cs = .ok w rest) :
    w ≠ [] ∧ (∀ c ∈ w, test c) ∧ cs = w ++ rest ∧ Avoids test rest := by
  have hall : ∀ c ∈ cs.takeWhile test, test c := fun _ => List.mem_takeWhile_imp
  rw [span] at h
  cases htaken : cs.takeWhile test with
  | nil => rw [htaken] at h; cases h
  | cons c taken =>
    rw [htaken] at h
    cases h
    refine ⟨List.cons_ne_nil c taken, htaken ▸ hall, ?_, avoids_dropWhile test cs⟩
    rw [← htaken, List.takeWhile_append_dropWhile]

theorem spaced_longer (h : ∀ cs a mid, p cs = .ok a mid → mid.length < cs.length) :
    ∀ cs a mid, spaced p cs = .ok a mid → mid.length < cs.length := by
  intro cs a mid hspaced
  obtain ⟨⟨⟩, front, ⟨⟩, hp⟩ := bind_eq_ok hspaced
  obtain ⟨a', behind, ha, hblanks⟩ := bind_eq_ok hp
  obtain ⟨⟨⟩, last, ⟨⟩, ⟨⟩⟩ := bind_eq_ok hblanks
  have hfront := List.length_dropWhile_le Draft.isBlank cs
  have hbehind := List.length_dropWhile_le Draft.isBlank behind
  have hread := h _ _ _ ha
  simp only [Draft.skipBlanks] at *
  omega

theorem char_longer : ∀ cs u mid, char c cs = .ok u mid → mid.length < cs.length := fun cs u mid h => by
  rw [char_eq_ok h, List.length_cons]
  exact Nat.lt_succ_self _

theorem spaced_skip (h : p (Draft.skipBlanks cs) = .miss) : spaced p cs = .miss := bind_ok rfl (bind_miss h)

/-! ### Stability -/

/-- What `p` reads in front of a rest, `q` reads in front of every rest that may follow instead, as long as this takes
at most `n` characters. The whole texts are then related by `S`. -/
def Stable (n : Nat) (S F : List Char → List Char → Prop) (p q : Parser α) : Prop :=
  ∀ ⦃cs a rest⦄, p cs = .ok a rest → ∃ w, cs = w ++ rest ∧
    ∀ rest', F rest rest' → S cs (w ++ rest') ∧ (w.length ≤ n → q (w ++ rest') = .ok a rest')

namespace Stable

theorem imp (h : Stable n S F p q) (hS : ∀ t t', S t t' → S' t t') (hF : ∀ t t', F' t t' → F t t') :
    Stable n S' F' p q := by
  intro cs a rest hp
  obtain ⟨w, hcs, hw⟩ := h hp
  refine ⟨w, hcs, fun rest' hrest => ?_⟩
  obtain ⟨hstart, hq⟩ := hw rest' (hF _ _ hrest)
  exact ⟨hS _ _ hstart, hq⟩

/-- More characters may stand at the start. -/
theorem widen {set other : List Char} (h : Stable n (Opens set) F p q) (hset : set.all other.contains) :
    Stable n (Opens other) F p q :=
  h.imp (fun _ _ => Opens.mono hset) fun _ _ => id

theorem mono {set other ends fewer : List Char} (h : Stable n (Opens set) (Opens ends) p q)
    (hset : set.all other.contains) (hends : fewer.all ends.contains) : Stable n (Opens other) (Opens fewer) p q :=
  h.imp (fun _ _ => Opens.mono hset) fun _ _ => Opens.mono hends

theorem pure (a : α) : Stable n F F (Pure.pure a : Parser α) (Pure.pure a) := by
  rintro cs b rest ⟨⟩
  exact ⟨[], rfl, fun rest' hrest => ⟨hrest, fun _ => rfl⟩⟩

theorem fail : Stable n S F (fail : Parser α) q := nofun

theorem ite {c : Prop} [Decidable c] (hp : Stable n S F p p') (hq : Stable n S F q q') :
    Stable n S F (if c then p else q) (if c then p' else q') := by
  split
  · exact hp
  · exact hq

theorem bind (hp : Stable n S G p q) (hf : ∀ a, Stable n G F (f a) (g a)) : Stable n S F (p >>= f) (q >>= g) := by
  intro cs b rest h
  obtain ⟨a, mid, ha, hb⟩ := bind_eq_ok h
  obtain ⟨w, rfl, hw⟩ := hp ha
  obtain ⟨v, rfl, hv⟩ := hf a hb
  refine ⟨w ++ v, (List.append_assoc ..).symm, fun rest' hrest => ?_⟩
  obtain ⟨hG, hg⟩ := hv rest' hrest
  obtain ⟨hS, hq⟩ := hw (v ++ rest') hG
  rw [List.append_assoc]
  refine ⟨hS, fun hlen => ?_⟩
  rw [List.length_append] at hlen
  exact bind_ok (hq (by omega)) (hg (by omega))

/-- The first alternative misses what the second one may start with. -/
theorem orElse (hp : Stable n S F p p') (hq : Stable n T F q q') (hmiss : ∀ t t', T t t' → p' t' = .miss)
    (hTS : ∀ t t', T t t' → S t t') : Stable n S F (orElse p q) (orElse p' q') := by
  intro cs a rest h
  obtain h | ⟨-, h⟩ := orElse_eq_ok h
  · obtain ⟨w, hcs, hw⟩ := hp h
    exact ⟨w, hcs, fun rest' hrest => ⟨(hw rest' hrest).1, fun hlen => orElse_ok ((hw rest' hrest).2 hlen)⟩⟩
  · obtain ⟨w, hcs, hw⟩ := hq h
    refine ⟨w, hcs, fun rest' hrest => ?_⟩
    obtain ⟨hT, hok⟩ := hw rest' hrest
    exact ⟨hTS _ _ hT, fun hlen => orElse_skip (hmiss _ _ hT) (hok hlen)⟩

/-- The first of several alternatives misses what the others may start with. -/
theorem choice_cons {ps qs : List (Parser α)} {all : List Char} (set others : List Char)
    (hp : Stable n (Opens set) F p q) (hps : Stable n (Opens others) F (choice ps) (choice qs))
    (hmiss : ∀ t t', Opens others t t' → q t' = .miss) (hset : set.all all.contains)
    (hothers : others.all all.contains) :
    Stable n (Opens all) F (choice (p :: ps)) (choice (q :: qs)) :=
  .orElse (hp.widen hset) hps hmiss fun _ _ => Opens.mono hothers

theorem choice_single (hp : Stable n S F p q) : Stable n S F (choice [p]) (choice [q]) := by
  intro cs a rest h
  obtain h | ⟨-, h⟩ := orElse_eq_ok h
  · obtain ⟨w, hcs, hw⟩ := hp h
    exact ⟨w, hcs, fun rest' hrest => ⟨(hw rest' hrest).1, fun hlen => choice_ok ((hw rest' hrest).2 hlen)⟩⟩
  · cases h

/-- An option in front of what it misses. -/
theorem optional {set ends all : List Char} (hp : Stable n (Opens set) (Opens ends) p q)
    (hmiss : ∀ t t', Opens ends t t' → q t' = .miss) (hset : set.all all.contains) (hends : ends.all all.contains) :
    Stable n (Opens all) (Opens ends) (optional p) (optional q) := by
  intro cs a rest h
  obtain ⟨b, rfl, hb⟩ | ⟨rfl, rfl, -⟩ := optional_eq_ok h
  · obtain ⟨w, hcs, hw⟩ := hp hb
    refine ⟨w, hcs, fun rest' hrest => ⟨(hw rest' hrest).1.mono hset, fun hlen => ?_⟩⟩
    exact optional_ok ((hw rest' hrest).2 hlen)
  · exact ⟨[], rfl, fun rest' hrest => ⟨hrest.mono hends, fun _ => optional_miss (hmiss _ _ hrest)⟩⟩

/-- In front of a rest that may follow an item, the items are read first, and then those of the rest. -/
theorem many_append (hp : Stable n S G p q) (hSG : ∀ t t', S t t' → G t t') (hFG : ∀ t t', F t t' → G t t')
    (h : many p cs = .ok as rest) : ∃ w, cs = w ++ rest ∧ ∀ rest', F rest rest' →
      (F cs (w ++ rest') ∨ S cs (w ++ rest')) ∧ (w.length ≤ n → ∀ all last,
        many q (w ++ rest') = .ok all last ↔ ∃ more, all = as ++ more ∧ many q rest' = .ok more last) := by
  induction as generalizing cs with
  | nil =>
    obtain rfl := many_eq_nil h
    exact ⟨[], rfl, fun rest' hrest => ⟨.inl hrest, fun _ all last => by simp⟩⟩
  | cons a as ih =>
    obtain ⟨mid, ha, hlt, hmore⟩ := many_eq_cons h
    obtain ⟨v, rfl, hv⟩ := ih hmore
    obtain ⟨w, rfl, hw⟩ := hp ha
    refine ⟨w ++ v, (List.append_assoc ..).symm, fun rest' hrest => ?_⟩
    obtain ⟨hstart, hmany⟩ := hv rest' hrest
    obtain ⟨hS, hq⟩ := hw (v ++ rest') (hstart.elim (hFG _ _) (hSG _ _))
    rw [List.append_assoc]
    refine ⟨.inr hS, fun hlen all last => ?_⟩
    simp only [List.length_append] at hlen hlt
    rw [many_cons_iff (hq (by omega)) (by simp only [List.length_append]; omega)]
    simp only [hmany (by omega), List.cons_append]
    constructor
    · rintro ⟨_, rfl, more, rfl, hmore⟩
      exact ⟨more, rfl, hmore⟩
    · rintro ⟨more, rfl, hmore⟩
      exact ⟨_, rfl, more, rfl, hmore⟩

theorem many (hp : Stable n S G p q) (hSG : ∀ t t', S t t' → G t t') (hFG : ∀ t t', F t t' → G t t')
    (hmiss : ∀ t t', F t t' → q t' = .miss) (hSS : ∀ t t', S t t' → S' t t') (hFS : ∀ t t', F t t' → S' t t') :
    Stable n S' F (many p) (many q) := by
  intro cs as rest h
  obtain ⟨w, hcs, hw⟩ := many_append hp hSG hFG h
  refine ⟨w, hcs, fun rest' hrest => ?_⟩
  obtain ⟨hstart, hmany⟩ := hw rest' hrest
  refine ⟨hstart.elim (hFS _ _) (hSS _ _), fun hlen => ?_⟩
  rw [hmany hlen]
  exact ⟨[], (List.append_nil as).symm, many_miss (hmiss _ _ hrest)⟩

/-- Where the first parser takes a character, the second one may read one less. -/
theorem bind_longer (hp : Stable (n + 1) S G p q) (hlonger : ∀ cs a mid, p cs = .ok a mid → mid.length < cs.length)
    (hf : ∀ a, Stable n G F (f a) (g a)) : Stable (n + 1) S F (p >>= f) (q >>= g) := by
  intro cs b rest h
  obtain ⟨a, mid, ha, hb⟩ := bind_eq_ok h
  have hlt := hlonger cs a mid ha
  obtain ⟨w, rfl, hw⟩ := hp ha
  obtain ⟨v, rfl, hv⟩ := hf a hb
  refine ⟨w ++ v, (List.append_assoc ..).symm, fun rest' hrest => ?_⟩
  obtain ⟨hG, hg⟩ := hv rest' hrest
  obtain ⟨hS, hq⟩ := hw (v ++ rest') hG
  rw [List.append_assoc]
  refine ⟨hS, fun hlen => ?_⟩
  simp only [List.length_append] at hlen hlt
  exact bind_ok (hq (by omega)) (hg (by omega))

/-- A character takes one of those that the parsers may read. -/
theorem after {f g : Unit → Parser β} (c : Char) (h : Stable n S F (f ()) (g ())) :
    Stable (n + 1) (After c S) F (char c >>= f) (char c >>= g) := by
  intro cs b rest hbind
  obtain ⟨⟨⟩, mid, hc, hb⟩ := bind_eq_ok hbind
  obtain rfl := char_eq_ok hc
  obtain ⟨w, rfl, hw⟩ := h hb
  refine ⟨c :: w, rfl, fun rest' hrest => ?_⟩
  obtain ⟨hS, hg⟩ := hw rest' hrest
  exact ⟨⟨_, _, rfl, rfl, hS⟩, fun hlen => bind_ok char_self (hg (Nat.le_of_succ_le_succ hlen))⟩

theorem char (hc : Draft.isBlank c = false) : Stable n (Opens [c]) F (char c) (char c) := by
  rintro cs ⟨⟩ rest h
  obtain rfl := char_eq_ok h
  exact ⟨[c], rfl, fun rest' _ => ⟨.cons (List.mem_singleton_self c) hc, fun _ => char_self⟩⟩

theorem text (hc : Draft.isBlank c = false) : Stable n (Opens [c]) F (text (c :: w)) (text (c :: w)) := by
  rintro cs ⟨⟩ rest h
  obtain rfl := text_eq_ok h
  exact ⟨c :: w, rfl, fun rest' _ => ⟨.cons (List.mem_singleton_self c) hc, fun _ => text_self⟩⟩

theorem span (test : Char → Bool) : Stable n (Hits test) (KeepsOff test) (span test) (span test) := by
  intro cs w rest h
  obtain ⟨hw, htest, rfl, hrest⟩ := span_eq_ok h
  refine ⟨w, rfl, fun rest' hkeeps => ⟨?_, fun _ => span_self hw htest (hkeeps hrest)⟩⟩
  cases w with
  | nil => exact absurd rfl hw
  | cons c w => exact ⟨rfl, c, rfl, htest c (List.mem_cons_self ..)⟩

theorem blanks (set : List Char) : Stable n (Opens set) (Opens set) blanks blanks := by
  rintro cs ⟨⟩ rest ⟨⟩
  obtain ⟨w, hw, hblank⟩ := exists_blanks cs
  refine ⟨w, hw, fun rest' hrest => ⟨⟨?_, ?_⟩, fun _ => ?_⟩⟩
  · rw [hw]
    cases w with
    | nil => exact hrest.1
    | cons c w => rfl
  · rw [skipBlanks_append hblank]
    exact hrest.2
  · rw [Parser.blanks, skipBlanks_append hblank, hrest.skipBlanks_eq (avoids_skipBlanks cs)]

theorem spaced {set other : List Char} (h : Stable n (Opens set) (Opens other) p q) :
    Stable n (Opens set) (Opens other) (spaced p) (spaced q) :=
  .bind (.blanks set) fun _ => .bind h fun a => .bind (.blanks other) fun _ => .pure a

end Stable

end Parser
end StepFlow
