import Stynx.JsonValues

/-!
# Rendering JSON values

A text of a JSON value over any alphabet that has the letters of JSON, with a
text of its own for a string and for a key. Where these two can be read off the
start of a longer text, so can the value, members in their order.
-/

namespace Stynx.JsonRendering

open JsonTokens CanonicalJson

/-- How JSON values are written over an alphabet. -/
structure Spelling (α : Type) where
  letter : Char → α
  string : JsString → List α
  key : JsString → List α

/-- A spelling whose strings and keys end where they end. -/
structure Lexicon (α : Type) extends Spelling α where
  /-- The symbol that a string starts with. -/
  opening : α
  letter_injective : Function.Injective letter
  /-- A string can start where no other character but a quotation mark can. -/
  eq_quote_of_opening : ∀ c, opening = letter c → c = '"'
  /-- Strings start with the opening symbol. -/
  string_head : ∀ s, ∃ rest, string s = opening :: rest
  /-- Keys start with the opening symbol. -/
  key_head : ∀ s, ∃ rest, key s = opening :: rest
  /-- A string ends where it ends. -/
  string_append_inj : ∀ {s t : JsString} {rest more : List α},
    string s ++ rest = string t ++ more → s = t ∧ rest = more
  /-- A key ends where it ends. -/
  key_append_inj : ∀ {s t : JsString} {rest more : List α},
    key s ++ rest = key t ++ more → s = t ∧ rest = more

variable {α β : Type}

/-- Texts with a separator between them, as `Array.prototype.join` puts it. -/
def joined (comma : α) : List (List α) → List α
  | [] => []
  | [text] => text
  | text :: next :: rest => text ++ comma :: joined comma (next :: rest)

namespace Spelling

variable (L : Spelling α)

/-- Characters outside strings. -/
def word (text : List Char) : List α := text.map L.letter

def member (m : JsString × List α) : List α := L.key m.1 ++ L.letter ':' :: m.2

mutual

def render : Json → List α
  | .null => L.word ['n', 'u', 'l', 'l']
  | .bool true => L.word ['t', 'r', 'u', 'e']
  | .bool false => L.word ['f', 'a', 'l', 's', 'e']
  | .num n => L.word (numberText n)
  | .str s => L.string s
  | .arr items => L.letter '[' :: (joined (L.letter ',') (renderItems items) ++ [L.letter ']'])
  | .obj members =>
    L.letter '{' :: (joined (L.letter ',') ((renderMembers members).map L.member) ++ [L.letter '}'])

/-- The texts of an array's items. -/
def renderItems : List Json → List (List α)
  | [] => []
  | x :: xs => render x :: renderItems xs

/-- The keys of an object with the texts of its values. -/
def renderMembers : List (JsString × Json) → List (JsString × List α)
  | [] => []
  | (key, value) :: ms => (key, render value) :: renderMembers ms

end

theorem renderItems_eq_map (items : List Json) : L.renderItems items = items.map L.render := by
  induction items with
  | nil => rfl
  | cons x xs ih => rw [renderItems, ih, List.map_cons]

theorem renderMembers_eq_map (members : List (JsString × Json)) :
    L.renderMembers members = members.map fun m => (m.1, L.render m.2) := by
  induction members with
  | nil => rfl
  | cons m ms ih =>
    obtain ⟨key, value⟩ := m
    rw [renderMembers, ih, List.map_cons]

theorem joined_map (f : α → β) (comma : α) (texts : List (List α)) :
    (joined comma texts).map f = joined (f comma) (texts.map (List.map f)) := by
  induction texts with
  | nil => rfl
  | cons text texts ih =>
    cases texts with
    | nil => rfl
    | cons next more =>
      rw [List.map_cons, List.map_cons, joined, joined, List.map_append, List.map_cons, ih,
        List.map_cons]

/-- A spelling that another is the image of, symbol by symbol. -/
structure Maps (L : Spelling α) (M : Spelling β) (f : α → β) : Prop where
  letter : ∀ c, f (L.letter c) = M.letter c
  string : ∀ s, (L.string s).map f = M.string s
  key : ∀ s, (L.key s).map f = M.key s

section

variable {L} {M : Spelling β} {f : α → β}

theorem Maps.word (h : L.Maps M f) (text : List Char) : (L.word text).map f = M.word text := by
  rw [Spelling.word, Spelling.word, List.map_map]
  exact List.map_congr_left fun c _ => h.letter c

mutual

theorem Maps.render (h : L.Maps M f) : ∀ v : Json, (L.render v).map f = M.render v
  | .null => by rw [Spelling.render, Spelling.render, h.word]
  | .bool b => by cases b <;> rw [Spelling.render, Spelling.render, h.word]
  | .num n => by rw [Spelling.render, Spelling.render, h.word]
  | .str s => by rw [Spelling.render, Spelling.render, h.string]
  | .arr items => by
    rw [Spelling.render, Spelling.render, List.map_cons, List.map_append, joined_map,
      h.renderItems items]
    simp [h.letter]
  | .obj members => by
    rw [Spelling.render, Spelling.render, List.map_cons, List.map_append, joined_map,
      h.renderMembers members]
    simp [h.letter]

theorem Maps.renderItems (h : L.Maps M f) : ∀ items : List Json,
    (L.renderItems items).map (List.map f) = M.renderItems items
  | [] => by rw [Spelling.renderItems, Spelling.renderItems, List.map_nil]
  | x :: xs => by
    rw [Spelling.renderItems, Spelling.renderItems, List.map_cons, h.render x, h.renderItems xs]

theorem Maps.renderMembers (h : L.Maps M f) : ∀ members : List (JsString × Json),
    ((L.renderMembers members).map L.member).map (List.map f) =
      (M.renderMembers members).map M.member
  | [] => by simp [Spelling.renderMembers]
  | (key, value) :: ms => by
    rw [Spelling.renderMembers, Spelling.renderMembers, List.map_cons, List.map_cons,
      List.map_cons, h.renderMembers ms]
    simp [Spelling.member, h.letter, h.key, h.render value]

end

end

end Spelling

namespace Lexicon

open Spelling

variable (L : Lexicon α)

def Ends (text : List α) : Prop :=
  ∀ c rest, text = L.letter c :: rest → isNumberChar c = false

theorem Ends.nil : L.Ends [] := fun _ _ h => by cases h

variable {L}

theorem Ends.letter {c : Char} (h : isNumberChar c = false) (rest : List α) :
    L.Ends (L.letter c :: rest) := fun d _ heq => by
  have hcd := L.letter_injective (List.cons.inj heq).1
  rwa [← hcd]

theorem word_append_inj {s t : List Char} {rest more : List α}
    (hs : ∀ c ∈ s, isNumberChar c = true) (ht : ∀ c ∈ t, isNumberChar c = true)
    (hrest : L.Ends rest) (hmore : L.Ends more) (h : L.word s ++ rest = L.word t ++ more) :
    s = t ∧ rest = more := by
  induction s generalizing t with
  | nil =>
    cases t with
    | nil => exact ⟨rfl, h⟩
    | cons d t =>
      have hend := hrest d _ h
      rw [ht d List.mem_cons_self] at hend
      cases hend
  | cons c s ih =>
    cases t with
    | nil =>
      have hend := hmore c _ h.symm
      rw [hs c List.mem_cons_self] at hend
      cases hend
    | cons d t =>
      obtain ⟨hhead, htail⟩ := List.cons.inj h
      have hcd := L.letter_injective hhead
      obtain ⟨hst, hends⟩ := ih (fun c hc => hs c (.tail _ hc))
        (fun c hc => ht c (.tail _ hc)) htail
      exact ⟨by rw [hcd, hst], hends⟩

/-- What follows the first of some joined texts. -/
def joinedTail (L : Lexicon α) (close : Char) (rest : List α) : List (List α) → List α
  | [] => L.letter close :: rest
  | text :: more => L.letter ',' :: (text ++ joinedTail L close rest more)

theorem joined_cons_append (close : Char) (text : List α) (texts : List (List α)) (rest : List α) :
    joined (L.letter ',') (text :: texts) ++ L.letter close :: rest =
      text ++ L.joinedTail close rest texts := by
  induction texts generalizing text with
  | nil => rfl
  | cons next more ih => rw [joined, List.append_assoc, List.cons_append, ih, joinedTail]

theorem joinedTail_ends {close : Char} (hclose : isNumberChar close = false) (rest : List α)
    (texts : List (List α)) : L.Ends (L.joinedTail close rest texts) := by
  cases texts with
  | nil => exact Ends.letter hclose rest
  | cons text more => exact Ends.letter rfl _

/-- Texts that can be told apart where they end. -/
def Readable (L : Lexicon α) (text : β → List α) (first second : List β) : Prop :=
  ∀ a ∈ first, ∀ b ∈ second, ∀ rest more, L.Ends rest → L.Ends more →
    text a ++ rest = text b ++ more → a = b ∧ rest = more

section

variable {text : β → List α} {close : Char}

theorem Readable.tail {a b : β} {as bs : List β} (h : L.Readable text (a :: as) (b :: bs)) :
    L.Readable text as bs := fun x hx y hy =>
  h x (.tail a hx) y (.tail b hy)

theorem joinedTail_inj (hclose : isNumberChar close = false) (hcomma : close ≠ ',') {as bs : List β}
    (hread : L.Readable text as bs) {rest more : List α}
    (h : L.joinedTail close rest (as.map text) = L.joinedTail close more (bs.map text)) :
    as = bs ∧ rest = more := by
  induction as generalizing bs with
  | nil =>
    cases bs with
    | nil => exact ⟨rfl, (List.cons.inj h).2⟩
    | cons b bs => exact absurd (L.letter_injective (List.cons.inj h).1) hcomma
  | cons a as ih =>
    cases bs with
    | nil => exact absurd (L.letter_injective (List.cons.inj h).1).symm hcomma
    | cons b bs =>
      have htails := (List.cons.inj h).2
      obtain ⟨hab, hnext⟩ := hread a (.head _) b (.head _) _ _
        (joinedTail_ends hclose rest _) (joinedTail_ends hclose more _) htails
      obtain ⟨has, hrest⟩ := ih hread.tail hnext
      exact ⟨by rw [hab, has], hrest⟩

theorem joined_inj (hclose : isNumberChar close = false) (hcomma : close ≠ ',') {as bs : List β}
    (hread : L.Readable text as bs)
    (has : ∀ a ∈ as, ∀ rest more, text a ++ rest ≠ L.letter close :: more)
    (hbs : ∀ b ∈ bs, ∀ rest more, text b ++ rest ≠ L.letter close :: more) {rest more : List α}
    (h : joined (L.letter ',') (as.map text) ++ L.letter close :: rest =
      joined (L.letter ',') (bs.map text) ++ L.letter close :: more) :
    as = bs ∧ rest = more := by
  cases as with
  | nil =>
    cases bs with
    | nil => exact ⟨rfl, (List.cons.inj h).2⟩
    | cons b bs =>
      rw [List.map_cons, joined_cons_append] at h
      exact absurd h.symm (hbs b (.head _) _ rest)
  | cons a as =>
    cases bs with
    | nil =>
      rw [List.map_cons, joined_cons_append] at h
      exact absurd h (has a (.head _) _ more)
    | cons b bs =>
      rw [List.map_cons, List.map_cons, joined_cons_append, joined_cons_append] at h
      obtain ⟨hab, hnext⟩ := hread a (.head _) b (.head _) _ _
        (joinedTail_ends hclose rest _) (joinedTail_ends hclose more _) h
      obtain ⟨htail, hrest⟩ := joinedTail_inj hclose hcomma hread.tail hnext
      exact ⟨by rw [hab, htail], hrest⟩

end

/-- The symbol of a character that a value can start with. -/
def Starts (L : Lexicon α) (c : Char) (symbol : α) : Prop :=
  symbol = L.letter c ∨ symbol = L.opening ∧ c = '"'

theorem Starts.eq {c d : Char} {symbol : α} (hc : L.Starts c symbol) (hd : L.Starts d symbol) :
    c = d := by
  rcases hc with hc | ⟨hc, rfl⟩
  · rcases hd with hd | ⟨hd, rfl⟩
    · exact L.letter_injective (hc.symm.trans hd)
    · exact L.eq_quote_of_opening c (hd.symm.trans hc)
  · rcases hd with hd | ⟨-, rfl⟩
    · exact (L.eq_quote_of_opening d (hc.symm.trans hd)).symm
    · rfl

theorem render_head (v : Json) :
    ∃ c symbol rest, L.render v = symbol :: rest ∧ L.Starts c symbol ∧ kindOf c = v.kind ∧
      c ≠ ']' ∧ c ≠ '}' := by
  cases v with
  | null => exact ⟨'n', _, _, by rw [render, word, List.map_cons], .inl rfl, by decide⟩
  | bool b =>
    cases b with
    | false => exact ⟨'f', _, _, by rw [render, word, List.map_cons], .inl rfl, by decide⟩
    | true => exact ⟨'t', _, _, by rw [render, word, List.map_cons], .inl rfl, by decide⟩
  | num n =>
    obtain ⟨c, rest, htext, hc⟩ := numberText_head n
    refine ⟨c, L.letter c, rest.map L.letter, ?_, .inl rfl, ?_, ?_, ?_⟩
    · rw [render, word, htext, List.map_cons]
    · rw [kindOf, if_pos hc, Json.kind]
    · rintro rfl
      cases hc
    · rintro rfl
      cases hc
  | str s =>
    obtain ⟨rest, hstring⟩ := L.string_head s
    exact ⟨'"', L.opening, rest, by rw [render, hstring], .inr ⟨rfl, rfl⟩, rfl, by decide,
      by decide⟩
  | arr items => exact ⟨'[', _, _, by rw [render], .inl rfl, rfl, by decide, by decide⟩
  | obj members => exact ⟨'{', _, _, by rw [render], .inl rfl, rfl, by decide, by decide⟩

theorem kind_eq_of_append {v w : Json} {rest more : List α}
    (h : L.render v ++ rest = L.render w ++ more) : v.kind = w.kind := by
  obtain ⟨c, s, _, hv, hc, hcv, -⟩ := render_head (L := L) v
  obtain ⟨d, t, _, hw, hd, hdw, -⟩ := render_head (L := L) w
  rw [hv, hw] at h
  rw [← (List.cons.inj h).1] at hd
  rw [← hcv, ← hdw, hc.eq hd]

theorem render_append_ne_close (v : Json) (rest more : List α) :
    L.render v ++ rest ≠ L.letter ']' :: more := by
  obtain ⟨c, symbol, _, hv, hc, -, hclose, -⟩ := render_head (L := L) v
  rw [hv]
  intro h
  exact hclose (hc.eq (.inl (List.cons.inj h).1))

theorem member_append_ne_close (m : JsString × List α) (rest more : List α) :
    L.member m ++ rest ≠ L.letter '}' :: more := by
  obtain ⟨_, hkey⟩ := L.key_head m.1
  rw [member, hkey]
  intro h
  exact absurd (L.eq_quote_of_opening '}' (List.cons.inj h).1) (by decide)

/-- A value and what follows it can be read off its text. -/
def Reads (L : Lexicon α) (v : Json) : Prop :=
  ∀ w rest more, L.Ends rest → L.Ends more → L.render v ++ rest = L.render w ++ more →
    v = w ∧ rest = more

theorem readable_items {items others : List Json} (h : ∀ x ∈ items, L.Reads x) :
    L.Readable L.render items others := fun a ha b _ rest more hrest hmore heq =>
  h a ha b rest more hrest hmore heq

theorem readable_members {members others : List (JsString × Json)}
    (h : ∀ m ∈ members, L.Reads m.2) :
    L.Readable (fun m : JsString × Json => L.member (m.1, L.render m.2)) members others := by
  intro a ha b _ rest more hrest hmore heq
  simp only [member, List.append_assoc] at heq
  obtain ⟨hkey, hvalue⟩ := L.key_append_inj heq
  obtain ⟨hsame, hmore'⟩ := h a ha b.2 rest more hrest hmore (List.cons.inj hvalue).2
  exact ⟨Prod.ext hkey hsame, hmore'⟩

theorem renderItems_append_inj {items others : List Json} (h : ∀ x ∈ items, L.Reads x)
    {rest more : List α}
    (heq : joined (L.letter ',') (L.renderItems items) ++ L.letter ']' :: rest =
      joined (L.letter ',') (L.renderItems others) ++ L.letter ']' :: more) :
    items = others ∧ rest = more := by
  rw [renderItems_eq_map, renderItems_eq_map] at heq
  exact joined_inj rfl (by decide) (readable_items h) (fun x _ => render_append_ne_close x)
    (fun x _ => render_append_ne_close x) heq

theorem renderMembers_append_inj {members others : List (JsString × Json)}
    (h : ∀ m ∈ members, L.Reads m.2) {rest more : List α}
    (heq : joined (L.letter ',') ((L.renderMembers members).map L.member) ++ L.letter '}' :: rest =
      joined (L.letter ',') ((L.renderMembers others).map L.member) ++ L.letter '}' :: more) :
    members = others ∧ rest = more := by
  rw [renderMembers_eq_map, renderMembers_eq_map, List.map_map, List.map_map] at heq
  exact joined_inj rfl (by decide) (readable_members h)
    (fun m _ => member_append_ne_close (m.1, L.render m.2))
    (fun m _ => member_append_ne_close (m.1, L.render m.2)) heq

theorem word_bool_inj {b c : Bool} {rest more : List α}
    (h : L.render (.bool b) ++ rest = L.render (.bool c) ++ more) : b = c ∧ rest = more := by
  have hft : L.letter 'f' ≠ L.letter 't' := fun heq => absurd (L.letter_injective heq) (by decide)
  cases b with
  | false =>
    cases c with
    | false => exact ⟨rfl, List.append_cancel_left h⟩
    | true => exact absurd (List.cons.inj h).1 hft
  | true =>
    cases c with
    | false => exact absurd (List.cons.inj h).1 hft.symm
    | true => exact ⟨rfl, List.append_cancel_left h⟩

mutual

theorem reads : ∀ v : Json, L.Reads v
  | .null => fun w rest more _ _ h => by
    have hkind := kind_eq_of_append h
    cases w with
    | null => exact ⟨rfl, List.append_cancel_left h⟩
    | _ => cases hkind
  | .bool b => fun w rest more _ _ h => by
    have hkind := kind_eq_of_append h
    cases w with
    | bool c =>
      obtain ⟨rfl, hmore⟩ := word_bool_inj h
      exact ⟨rfl, hmore⟩
    | _ => cases hkind
  | .num n => fun w rest more hrest hmore h => by
    have hkind := kind_eq_of_append h
    cases w with
    | num m =>
      rw [render, render] at h
      obtain ⟨htext, hmore'⟩ := word_append_inj (isNumberChar_numberText n)
        (isNumberChar_numberText m) hrest hmore h
      exact ⟨by rw [numberText_injective htext], hmore'⟩
    | _ => cases hkind
  | .str s => fun w rest more _ _ h => by
    have hkind := kind_eq_of_append h
    cases w with
    | str t =>
      rw [render, render] at h
      obtain ⟨rfl, hmore⟩ := L.string_append_inj h
      exact ⟨rfl, hmore⟩
    | _ => cases hkind
  | .arr items => fun w rest more _ _ h => by
    have hkind := kind_eq_of_append h
    cases w with
    | arr others =>
      rw [render, render, List.cons_append, List.cons_append, List.append_assoc,
        List.append_assoc] at h
      obtain ⟨rfl, hmore⟩ := renderItems_append_inj (reads_items items) (List.cons.inj h).2
      exact ⟨rfl, hmore⟩
    | _ => cases hkind
  | .obj members => fun w rest more _ _ h => by
    have hkind := kind_eq_of_append h
    cases w with
    | obj others =>
      rw [render, render, List.cons_append, List.cons_append, List.append_assoc,
        List.append_assoc] at h
      obtain ⟨rfl, hmore⟩ := renderMembers_append_inj (reads_members members) (List.cons.inj h).2
      exact ⟨rfl, hmore⟩
    | _ => cases hkind

theorem reads_items : ∀ items : List Json, ∀ x ∈ items, L.Reads x
  | [] => fun _ hx => absurd hx List.not_mem_nil
  | x :: xs => fun y hy => by
    rcases List.mem_cons.mp hy with heq | hy
    · rw [heq]
      exact reads x
    · exact reads_items xs y hy

theorem reads_members : ∀ members : List (JsString × Json), ∀ m ∈ members, L.Reads m.2
  | [] => fun _ hm => absurd hm List.not_mem_nil
  | (_, value) :: ms => fun m hm => by
    rcases List.mem_cons.mp hm with heq | hm
    · rw [heq]
      exact reads value
    · exact reads_members ms m hm

end

theorem render_injective : Function.Injective L.render := fun v w h =>
  (reads v w [] [] (Ends.nil L) (Ends.nil L) (congrArg (· ++ []) h)).1

end Lexicon

/-- The letters of JSON, strings and keys as `JSON.stringify` writes them. -/
def jsonLexicon : Lexicon Char where
  letter := id
  string := quote
  key := quote
  opening := '"'
  letter_injective := Function.injective_id
  eq_quote_of_opening _ h := h.symm
  string_head _ := ⟨_, rfl⟩
  key_head _ := ⟨_, rfl⟩
  string_append_inj := quote_append_inj
  key_append_inj := quote_append_inj

end Stynx.JsonRendering
