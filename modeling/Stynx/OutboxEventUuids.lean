import Stynx.OutboxTables
import Stynx.UuidTexts

/-!
# The text of an event id

`outbox.event_uuid` cuts the digits of an instant and of an order into the groups
of a UUID and casts the text. The bits of the order pass by the version and the
variant in their own order, so the ids sort as the pairs do.
-/

namespace Stynx.OutboxTables

def toHex (n : Nat) : List Char := Nat.toDigits 16 n

/-- `lpad(text, width, '0')`, which cuts on the right. -/
def lpad (text : List Char) (width : Nat) : List Char :=
  if text.length ≤ width then List.replicate (width - text.length) '0' ++ text
  else text.take width

def substr (text : List Char) (start count : Nat) : List Char := (text.drop (start - 1)).take count

def eventUuidText (ms order : Nat) : String :=
  String.ofList
    (substr (lpad (toHex ms) 12) 1 8 ++ ['-'] ++ substr (lpad (toHex ms) 12) 9 4 ++ ['-'] ++
      ('7' :: lpad (toHex (order >>> 62)) 3) ++ ['-'] ++
      substr ['8', '9', 'a', 'b'] (((order >>> 60) &&& 3) + 1) 1 ++
      substr (lpad (toHex (order &&& 1152921504606846975)) 15) 1 3 ++ ['-'] ++
      substr (lpad (toHex (order &&& 1152921504606846975)) 15) 4 12)

variable {ms order width n : Nat}

theorem digits_zero (width : Nat) : UuidTexts.digits width 0 = List.replicate width '0' := by
  induction width with
  | zero => rfl
  | succ width ih =>
    rw [UuidTexts.digits, ih, List.replicate_succ']
    rfl

theorem lpad_toHex (hwidth : 0 < width) (hn : n < 16 ^ width) :
    (toHex n).length ≤ width ∧ lpad (toHex n) width = UuidTexts.digits width n := by
  induction width generalizing n with
  | zero => omega
  | succ width ih =>
    by_cases hsmall : n < 16
    · have hhex : toHex n = [Nat.digitChar n] := Nat.toDigits_of_lt_base hsmall
      have hdiv : n / 16 = 0 := by omega
      rw [hhex, lpad, UuidTexts.digits, hdiv, digits_zero, Nat.mod_eq_of_lt hsmall]
      exact ⟨Nat.succ_le_succ (Nat.zero_le _), if_pos (Nat.succ_le_succ (Nat.zero_le _))⟩
    · rw [Nat.pow_succ] at hn
      have hpositive : 0 < width := by
        by_contra hzero
        obtain rfl : width = 0 := by omega
        omega
      obtain ⟨hlength, hpadded⟩ := ih hpositive (by omega : n / 16 < 16 ^ width)
      have hhex : toHex n = toHex (n / 16) ++ [Nat.digitChar (n % 16)] :=
        Nat.toDigits_of_base_le (by decide) (by omega)
      have hlonger : (toHex n).length = (toHex (n / 16)).length + 1 := by
        rw [hhex, List.length_append, List.length_singleton]
      refine ⟨by omega, ?_⟩
      rw [lpad, if_pos hlength] at hpadded
      rw [lpad, if_pos (by omega), hlonger, Nat.add_sub_add_right, hhex, ← List.append_assoc,
        hpadded, UuidTexts.digits]

theorem digits_append (first second : Nat) {low : Nat} (hlow : low < 16 ^ second) :
    UuidTexts.digits (first + second) (n * 16 ^ second + low) =
      UuidTexts.digits first n ++ UuidTexts.digits second low := by
  induction second generalizing low with
  | zero =>
    obtain rfl : low = 0 := by simpa using hlow
    simp [UuidTexts.digits]
  | succ second ih =>
    rw [Nat.pow_succ] at hlow
    have hdiv : (n * 16 ^ (second + 1) + low) / 16 = n * 16 ^ second + low / 16 := by
      rw [Nat.pow_succ, ← Nat.mul_assoc, Nat.mul_comm (n * 16 ^ second) 16,
        Nat.mul_add_div (by decide)]
    have hmod : (n * 16 ^ (second + 1) + low) % 16 = low % 16 := by
      rw [Nat.pow_succ, ← Nat.mul_assoc, Nat.mul_comm (n * 16 ^ second) 16, Nat.mul_add_mod]
    rw [← Nat.add_assoc, UuidTexts.digits, UuidTexts.digits, hdiv, hmod, ih (by omega),
      List.append_assoc]

theorem eventUuid_eq (hms : ms < 2 ^ 48) (horder : order < 2 ^ 63) :
    eventUuid ms order = ms * 2 ^ 80 + 7 * 2 ^ 76 + order / 2 ^ 62 * 2 ^ 64 +
      (8 + order / 2 ^ 60 % 4) * 2 ^ 60 + order % 2 ^ 60 := by
  rw [eventUuid, hexField, hexField, if_pos (by omega), if_pos (by omega)]

theorem digits_eventUuid (hms : ms < 2 ^ 48) (horder : order < 2 ^ 63) :
    UuidTexts.digits 32 (eventUuid ms order) =
      UuidTexts.digits 12 ms ++ ('7' :: UuidTexts.digits 3 (order / 2 ^ 62)) ++
        (substr ['8', '9', 'a', 'b'] (order / 2 ^ 60 % 4 + 1) 1 ++
          UuidTexts.digits 15 (order % 2 ^ 60)) := by
  have hlow : UuidTexts.digits 16 ((8 + order / 2 ^ 60 % 4) * 16 ^ 15 + order % 2 ^ 60) =
      substr ['8', '9', 'a', 'b'] (order / 2 ^ 60 % 4 + 1) 1 ++
        UuidTexts.digits 15 (order % 2 ^ 60) := by
    have hvariant : ∀ k < 4, UuidTexts.digits 1 (8 + k) =
        substr ['8', '9', 'a', 'b'] (k + 1) 1 := by
      decide
    rw [← hvariant _ (Nat.mod_lt _ (by decide)), ← digits_append 1 15 (by omega)]
  have hmiddle : UuidTexts.digits 4 (7 * 16 ^ 3 + order / 2 ^ 62) =
      '7' :: UuidTexts.digits 3 (order / 2 ^ 62) := by
    have hseven : UuidTexts.digits 1 7 = ['7'] := by decide
    rw [show 4 = 1 + 3 from rfl, digits_append 1 3 (by omega), hseven, List.singleton_append]
  have hhigh := digits_append (n := ms) 12 4 (by omega : 7 * 16 ^ 3 + order / 2 ^ 62 < 16 ^ 4)
  rw [hmiddle] at hhigh
  have hsum : eventUuid ms order = (ms * 16 ^ 4 + (7 * 16 ^ 3 + order / 2 ^ 62)) * 16 ^ 16 +
      ((8 + order / 2 ^ 60 % 4) * 16 ^ 15 + order % 2 ^ 60) := by
    rw [eventUuid_eq hms horder]
    omega
  rw [hsum, ← hhigh, ← hlow]
  exact digits_append 16 16 (by omega)

theorem groups_append {a b c d e : List Char} (ha : a.length = 8) (hb : b.length = 4)
    (hc : c.length = 4) (hd : d.length = 4) :
    UuidTexts.groups (a ++ (b ++ (c ++ (d ++ e)))) =
      a ++ '-' :: b ++ '-' :: c ++ '-' :: d ++ '-' :: e := by
  have h8 : (a ++ (b ++ (c ++ (d ++ e)))).drop 8 = b ++ (c ++ (d ++ e)) := List.drop_left' ha
  have h12 : (a ++ (b ++ (c ++ (d ++ e)))).drop 12 = c ++ (d ++ e) := by
    rw [show 12 = 8 + 4 from rfl, ← List.drop_drop, h8, List.drop_left' hb]
  have h16 : (a ++ (b ++ (c ++ (d ++ e)))).drop 16 = d ++ e := by
    rw [show 16 = 12 + 4 from rfl, ← List.drop_drop, h12, List.drop_left' hc]
  have h20 : (a ++ (b ++ (c ++ (d ++ e)))).drop 20 = e := by
    rw [show 20 = 16 + 4 from rfl, ← List.drop_drop, h16, List.drop_left' hd]
  rw [UuidTexts.groups, h8, h12, h16, h20, List.take_left' ha, List.take_left' hb,
    List.take_left' hc, List.take_left' hd]

theorem eventUuidText_eq (hms : ms < 2 ^ 48) (horder : order < 2 ^ 63) :
    eventUuidText ms order = UuidTexts.text (eventUuid ms order) := by
  have hmask : order &&& 1152921504606846975 = order % 2 ^ 60 :=
    Nat.and_two_pow_sub_one_eq_mod order 60
  have hbits : (order >>> 60) &&& 3 = order / 2 ^ 60 % 4 := by
    rw [Nat.shiftRight_eq_div_pow]
    exact Nat.and_two_pow_sub_one_eq_mod _ 2
  rw [eventUuidText, UuidTexts.text, digits_eventUuid hms horder, hmask, hbits,
    Nat.shiftRight_eq_div_pow, (lpad_toHex (by decide) (by omega : ms < 16 ^ 12)).2,
    (lpad_toHex (by decide) (by omega : order / 2 ^ 62 < 16 ^ 3)).2,
    (lpad_toHex (by decide) (by omega : order % 2 ^ 60 < 16 ^ 15)).2]
  have hinstant := UuidTexts.length_digits 12 ms
  have hlow := UuidTexts.length_digits 15 (order % 2 ^ 60)
  generalize UuidTexts.digits 12 ms = instant at hinstant ⊢
  generalize UuidTexts.digits 15 (order % 2 ^ 60) = low at hlow ⊢
  have hvariant : (substr ['8', '9', 'a', 'b'] (order / 2 ^ 60 % 4 + 1) 1).length = 1 := by
    have hbound := Nat.mod_lt (order / 2 ^ 60) (by decide : 0 < 4)
    simp only [substr, List.length_take, List.length_drop, List.length_cons, List.length_nil]
    omega
  have hgroups := groups_append
    (a := instant.take 8) (b := instant.drop 8) (c := '7' :: UuidTexts.digits 3 (order / 2 ^ 62))
    (d := substr ['8', '9', 'a', 'b'] (order / 2 ^ 60 % 4 + 1) 1 ++ low.take 3) (e := low.drop 3)
    (by rw [List.length_take]; omega) (by rw [List.length_drop]; omega)
    (by rw [List.length_cons, UuidTexts.length_digits])
    (by rw [List.length_append, hvariant, List.length_take]; omega)
  have hb : substr instant 9 4 = instant.drop 8 :=
    List.take_of_length_le (by rw [List.length_drop]; omega)
  have he : substr low 4 12 = low.drop 3 :=
    List.take_of_length_le (by rw [List.length_drop]; omega)
  rw [← List.append_assoc (instant.take 8), List.take_append_drop, List.append_assoc _ (low.take 3),
    List.take_append_drop, ← List.append_assoc] at hgroups
  rw [hgroups, hb, he]
  simp only [substr, Nat.sub_self, List.drop_zero, List.append_assoc, List.nil_append,
    List.cons_append]

theorem eventUuid_lt_of_lex {otherMs otherOrder : Nat} (hms : ms < 2 ^ 48) (horder : order < 2 ^ 63)
    (hotherMs : otherMs < 2 ^ 48) (hotherOrder : otherOrder < 2 ^ 63)
    (h : ms < otherMs ∨ ms = otherMs ∧ order < otherOrder) :
    eventUuid ms order < eventUuid otherMs otherOrder := by
  rw [eventUuid_eq hms horder, eventUuid_eq hotherMs hotherOrder]
  rcases h with hlt | ⟨rfl, hlt⟩ <;> omega

/-- An event id is a UUID of version 7, and ids are ordered as instants and orders are. -/
theorem eventUuid_ordered (hms : ms < 2 ^ 48) (horder : order < 2 ^ 63) :
    UuidTexts.parse (eventUuidText ms order) = some (eventUuid ms order) ∧
      eventUuid ms order / 2 ^ 76 % 16 = 7 ∧ eventUuid ms order / 2 ^ 62 % 4 = 2 ∧
      ∀ otherMs < 2 ^ 48, ∀ otherOrder < 2 ^ 63,
        (eventUuid ms order < eventUuid otherMs otherOrder ↔
          ms < otherMs ∨ ms = otherMs ∧ order < otherOrder) ∧
        (eventUuid ms order = eventUuid otherMs otherOrder ↔
          ms = otherMs ∧ order = otherOrder) := by
  have hid := eventUuid_eq hms horder
  have hversion : ∃ rest < 2 ^ 76, eventUuid ms order = (ms * 16 + 7) * 2 ^ 76 + rest :=
    ⟨order / 2 ^ 62 * 2 ^ 64 + (8 + order / 2 ^ 60 % 4) * 2 ^ 60 + order % 2 ^ 60, by omega,
      by omega⟩
  have hvariant : ∃ k, ∃ rest < 2 ^ 62, eventUuid ms order = (4 * k + 2) * 2 ^ 62 + rest :=
    ⟨ms * 2 ^ 16 + 7 * 2 ^ 12 + order / 2 ^ 62, order / 2 ^ 60 % 4 * 2 ^ 60 + order % 2 ^ 60,
      by omega, by omega⟩
  refine ⟨?_, ?_, ?_, ?_⟩
  · rw [eventUuidText_eq hms horder]
    exact UuidTexts.parse_text (by omega)
  · obtain ⟨rest, hrest, hsum⟩ := hversion
    omega
  · obtain ⟨k, rest, hrest, hsum⟩ := hvariant
    omega
  · intro otherMs hotherMs otherOrder hotherOrder
    have hless := eventUuid_lt_of_lex hms horder hotherMs hotherOrder
    have hmore := eventUuid_lt_of_lex hotherMs hotherOrder hms horder
    rcases lt_trichotomy ms otherMs with hlt | rfl | hgt
    · have := hless (.inl hlt)
      omega
    · rcases lt_trichotomy order otherOrder with hlt | rfl | hgt
      · have := hless (.inr ⟨rfl, hlt⟩)
        omega
      · omega
      · have := hmore (.inr ⟨rfl, hgt⟩)
        omega
    · have := hmore (.inl hgt)
      omega

theorem eventUuid_ordered_boundary :
    eventUuid 1700000000000 (2 ^ 62 - 1) < eventUuid 1700000000000 (2 ^ 62) :=
  ((eventUuid_ordered (by decide) (by decide)).2.2.2 _ (by decide) _ (by decide)).1.mpr
    (.inr ⟨rfl, by decide⟩)

end Stynx.OutboxTables
