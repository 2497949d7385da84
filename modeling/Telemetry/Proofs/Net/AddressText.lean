import Telemetry.Proofs.Json.Numeral
import Telemetry.Proofs.Net.Digits
import Telemetry.Text.Blank

/-!
# Texts of addresses

Which texts write an address. A 32-bit address has one text. A 128-bit address has many: a group may
have needless zeros and digits of either case, any run of zero groups may be left out once, and the
last two groups may be written as four bytes. The reader accepts exactly these texts. It never has to
choose: it goes as far as the digits go, and what stands behind a group is a colon, while what stands
behind the first byte of a 32-bit address is a point.
-/

namespace Telemetry.Net

open Telemetry.Number

/-! ### Which texts write an address -/

/-- One to four digits that make the number of a group. -/
structure WritesGroup (digits : List Char) (group : Nat) : Prop where
  areDigits : AreDigits 16 digits
  ne_nil : digits ≠ []
  most : digits.length ≤ 4
  value : numberOf 16 digits = group

/-- The colon in front of a group; the first group has none. -/
def colon (first : Bool) : List Char := if first then [] else [':']

/-- Groups one after another, and whether the last two are written as four decimal bytes. -/
inductive WritesGroups : Bool → Bool → List Char → List Nat → Prop where
  | nil (first : Bool) : WritesGroups first false [] []
  | bytes (first : Bool) (bits : BitVec 32) :
    WritesGroups first true (colon first ++ v4Text bits) [bits.toNat / 65536, bits.toNat % 65536]
  | group {first decimal : Bool} {digits text : List Char} {group : Nat} {groups : List Nat}
    (hgroup : WritesGroup digits group) (hrest : WritesGroups false decimal text groups) :
    WritesGroups first decimal (colon first ++ digits ++ text) (group :: groups)

/-- The texts of an address. -/
inductive Writes : List Char → IpAddress → Prop where
  | v4 (bits : BitVec 32) : Writes (v4Text bits) (.v4 bits)
  | whole {decimal : Bool} {text : List Char} {groups : List Nat}
    (h : WritesGroups true decimal text groups) (height : groups.length = 8) :
    Writes text (.v6 (ofGroups groups))
  | shortened {decimal : Bool} {head tail : List Char} {front back : List Nat}
    (hfront : WritesGroups true false head front) (hback : WritesGroups true decimal tail back)
    (hseven : front.length + back.length ≤ 7) :
    Writes (head ++ ':' :: ':' :: tail) (.v6 (ofGroups
      (front ++ List.replicate (8 - front.length - back.length) 0 ++ back)))

variable {cs rest : List Char}

/-! ### Four decimal bytes -/

theorem after?_eq_some {c : Char} : after? c cs = some rest ↔ cs = c :: rest := by
  cases cs with
  | nil => simp [after?]
  | cons d cs => simp [after?]

theorem areDigits_digitsOf (n : Nat) : AreDigits 10 (Layout.digitsOf n) :=
  (numberOf_toDigits (by decide) (by decide) n).1

theorem numberOf_digitsOf (n : Nat) : numberOf 10 (Layout.digitsOf n) = n :=
  (numberOf_toDigits (by decide) (by decide) n).2

theorem readByte_sound {n : Nat} (h : readByte cs = some (n, rest)) :
    n < 256 ∧ cs = Layout.digitsOf n ++ rest := by
  rcases hspan : spanDigits 10 cs with ⟨digits, after⟩
  obtain ⟨rfl, hdigits, -⟩ := spanDigits_sound hspan
  simp only [readByte, hspan] at h
  split at h
  · cases h
  · rename_i hbyte
    split at h
    · cases h
    · rename_i hzeros
      cases h
      simp only [Bool.or_eq_true, List.isEmpty_iff, decide_eq_true_eq, not_or] at hbyte
      simp only [Bool.and_eq_true, decide_eq_true_eq, not_and, Nat.not_lt] at hzeros
      refine ⟨by omega, ?_⟩
      rw [digitsOf_numberOf hdigits hbyte.1.1]
      by_cases hhead : digits.head? = some '0'
      · have hpos := List.length_pos_iff.2 hbyte.1.1
        have hone := hzeros hhead
        exact .inl (by omega)
      · exact .inr hhead

theorem readByte_complete {n : Nat} (hn : n < 256) (hrest : EndsDigits 10 rest) :
    readByte (Layout.digitsOf n ++ rest) = some (n, rest) := by
  have hsome : Layout.digitsOf n ≠ [] := Nat.toDigits_ne_nil
  have hlength : (Layout.digitsOf n).length ≤ 3 :=
    (Nat.length_toDigits_le_iff (by decide) (by decide)).2 (by omega)
  have hzeros : (Layout.digitsOf n).head? = some '0' → (Layout.digitsOf n).length ≤ 1 := by
    intro hhead
    obtain rfl : n = 0 := by
      by_contra hpos
      exact Json.Numeral.digitsOf_head hpos hhead
    exact Nat.le_refl 1
  rw [readByte, spanDigits_append (areDigits_digitsOf n) hrest]
  simp only [numberOf_digitsOf]
  rw [if_neg, if_neg]
  · simpa using hzeros
  · simp only [Bool.or_eq_true, List.isEmpty_iff, decide_eq_true_eq, not_or, Nat.not_lt]
    exact ⟨⟨hsome, hlength⟩, Nat.le_of_lt_succ hn⟩

/-- A byte of a 32-bit address. -/
def byteOf (bits : BitVec 32) (shift : Nat) : Nat := bits.toNat >>> shift % 256

theorem byteOf_lt (bits : BitVec 32) (shift : Nat) : byteOf bits shift < 256 :=
  Nat.mod_lt _ (by decide)

theorem v4Text_append (bits : BitVec 32) (rest : List Char) : v4Text bits ++ rest =
    Layout.digitsOf (byteOf bits 24) ++ '.' :: (Layout.digitsOf (byteOf bits 16) ++ '.' ::
      (Layout.digitsOf (byteOf bits 8) ++ '.' :: (Layout.digitsOf (byteOf bits 0) ++ rest))) := by
  simp only [v4Text, byteOf, List.append_assoc, List.cons_append]

theorem ofNat_bytes (bits : BitVec 32) : BitVec.ofNat 32
    (((byteOf bits 24 * 256 + byteOf bits 16) * 256 + byteOf bits 8) * 256 + byteOf bits 0) = bits := by
  apply BitVec.eq_of_toNat_eq
  have hlt := bits.isLt
  simp only [BitVec.toNat_ofNat, byteOf, Nat.shiftRight_eq_div_pow]
  omega

theorem byteOf_ofNat {a b c d : Nat} (ha : a < 256) (hb : b < 256) (hc : c < 256) (hd : d < 256) :
    let bits := BitVec.ofNat 32 (((a * 256 + b) * 256 + c) * 256 + d)
    byteOf bits 24 = a ∧ byteOf bits 16 = b ∧ byteOf bits 8 = c ∧ byteOf bits 0 = d := by
  intro bits
  simp only [bits, byteOf, BitVec.toNat_ofNat, Nat.shiftRight_eq_div_pow]
  omega

theorem readV4_sound {bits : BitVec 32} (h : readV4 cs = some (bits, rest)) :
    cs = v4Text bits ++ rest := by
  simp only [readV4, Option.bind_eq_some_iff, Option.map_eq_some_iff, Prod.exists,
    after?_eq_some, Prod.mk.injEq] at h
  obtain ⟨a, cs, ha, _, rfl, b, cs, hb, _, rfl, c, cs, hc, _, rfl, d, cs, hd, rfl, rfl⟩ := h
  obtain ⟨ha, rfl⟩ := readByte_sound ha
  obtain ⟨hb, rfl⟩ := readByte_sound hb
  obtain ⟨hc, rfl⟩ := readByte_sound hc
  obtain ⟨hd, rfl⟩ := readByte_sound hd
  obtain ⟨h24, h16, h8, h0⟩ := byteOf_ofNat ‹a < 256› ‹b < 256› ‹c < 256› ‹d < 256›
  rw [v4Text_append, h24, h16, h8, h0]

theorem readV4_complete (bits : BitVec 32) (hrest : EndsDigits 10 rest) :
    readV4 (v4Text bits ++ rest) = some (bits, rest) := by
  have hbyte (shift : Nat) (more : List Char) :
      readByte (Layout.digitsOf (byteOf bits shift) ++ '.' :: more)
        = some (byteOf bits shift, '.' :: more) :=
    readByte_complete (byteOf_lt bits shift) (endsDigits_cons (by decide) more)
  have hpoint (more : List Char) : after? '.' ('.' :: more) = some more := after?_eq_some.2 rfl
  have hlast := readByte_complete (byteOf_lt bits 0) hrest
  rw [v4Text_append, readV4]
  simp only [hbyte, hpoint, hlast, Option.bind_some, Option.map_some, ofNat_bytes]

theorem readV4_eq_none (h : EndsDigits 10 cs) : readV4 cs = none := by
  have hspan : spanDigits 10 cs = ([], cs) := @spanDigits_append 10 [] cs nofun h
  rw [readV4, readByte, hspan]
  rfl

/-! ### Groups -/

theorem readGroup_sound {group : Nat} (h : readGroup cs = some (group, rest)) :
    ∃ digits, cs = digits ++ rest ∧ WritesGroup digits group := by
  rcases hspan : spanDigits 16 cs with ⟨digits, after⟩
  obtain ⟨rfl, hdigits, -⟩ := spanDigits_sound hspan
  simp only [readGroup, hspan] at h
  split at h
  · cases h
  · rename_i hlength
    cases h
    simp only [Bool.or_eq_true, List.isEmpty_iff, decide_eq_true_eq, not_or, Nat.not_lt] at hlength
    exact ⟨digits, rfl, hdigits, hlength.1, hlength.2, rfl⟩

theorem WritesGroup.read {digits : List Char} {group : Nat} (h : WritesGroup digits group)
    (hrest : EndsDigits 16 rest) : readGroup (digits ++ rest) = some (group, rest) := by
  rw [readGroup, spanDigits_append h.areDigits hrest]
  simp only [h.value]
  rw [if_neg]
  simp only [Bool.or_eq_true, List.isEmpty_iff, decide_eq_true_eq, not_or, Nat.not_lt]
  exact ⟨h.ne_nil, h.most⟩

theorem readGroup_eq_none (h : EndsDigits 16 cs) : readGroup cs = none := by
  have hspan : spanDigits 16 cs = ([], cs) := @spanDigits_append 16 [] cs nofun h
  rw [readGroup, hspan]
  rfl

theorem afterColon_eq_some {first : Bool} :
    afterColon first cs = some rest ↔ cs = colon first ++ rest := by
  cases first with
  | true => exact Option.some_inj
  | false => exact after?_eq_some

/-- The text begins with a colon, or is empty. -/
def Breaks (cs : List Char) : Prop := ∀ c ∈ cs.head?, c = ':'

theorem Breaks.endsDigits (h : Breaks cs) : EndsDigits 16 cs := by
  intro c hc
  rw [h c hc]
  decide

/-- What stands behind the first digits of a 32-bit address is a point. -/
theorem readV4_group {digits : List Char} (hdigits : AreDigits 16 digits) (h : Breaks cs) :
    readV4 (digits ++ cs) = none := by
  rcases hread : readV4 (digits ++ cs) with - | ⟨bits, rest⟩
  · rfl
  · have hsame := readV4_sound hread
    -- the same run of digits, with a point behind it and with something else behind it
    have hspan := spanDigits_append hdigits h.endsDigits
    have hbyte : AreDigits 16 (Layout.digitsOf (byteOf bits 24)) :=
      (areDigits_digitsOf _).mono (by decide)
    rw [hsame, v4Text_append, spanDigits_append hbyte (endsDigits_cons (by decide) _)] at hspan
    obtain ⟨-, rfl⟩ := Prod.mk.inj hspan
    exact absurd (h '.' rfl) (by decide)

/-! ### Eight groups -/

theorem readGroups_sound {limit : Nat} {first decimal : Bool} {groups : List Nat}
    (h : readGroups limit first cs = (groups, decimal, rest)) :
    groups.length ≤ limit ∧
      ∃ text, cs = text ++ rest ∧ WritesGroups first decimal text groups := by
  fun_induction readGroups limit first cs generalizing groups decimal rest with
  | case1 first cs =>
    cases h
    exact ⟨Nat.le_refl 0, [], rfl, .nil first⟩
  | case2 limit first cs bits after hbytes =>
    cases h
    split at hbytes
    · cases hbytes
    · obtain ⟨behind, hcolon, hread⟩ := Option.bind_eq_some_iff.1 hbytes
      rw [afterColon_eq_some.1 hcolon, readV4_sound hread, ← List.append_assoc]
      refine ⟨?_, _, rfl, .bytes first bits⟩
      show 2 ≤ limit + 1
      omega
  | case3 limit first cs hbytes hgroup =>
    cases h
    exact ⟨Nat.zero_le _, [], rfl, .nil first⟩
  | case4 limit first cs hbytes group after hgroup groups' decimal' rest' hrest ih =>
    cases h
    obtain ⟨behind, hcolon, hread⟩ := Option.bind_eq_some_iff.1 hgroup
    obtain ⟨digits, rfl, hwrites⟩ := readGroup_sound hread
    obtain ⟨hlength, text, rfl, hmore⟩ := ih hrest
    refine ⟨Nat.succ_le_succ hlength, colon first ++ digits ++ text, ?_, .group hwrites hmore⟩
    rw [afterColon_eq_some.1 hcolon, List.append_assoc, List.append_assoc]

/-- Behind the last group there is nothing, or the two colons that stand for the groups left out. -/
inductive EndsGroups : List Char → Prop where
  | nothing : EndsGroups []
  | colons (more : List Char) : EndsGroups (':' :: ':' :: more)

theorem EndsGroups.breaks (h : EndsGroups rest) : Breaks rest := by
  cases h <;> rintro _ ⟨⟩
  rfl

theorem EndsGroups.behind (h : EndsGroups rest) {first : Bool} {behind : List Char}
    (hcolon : afterColon first rest = some behind) : EndsDigits 16 behind := by
  rw [afterColon_eq_some] at hcolon
  cases first with
  | true =>
    obtain rfl : rest = behind := hcolon
    exact h.breaks.endsDigits
  | false =>
    cases h with
    | nothing => cases hcolon
    | colons more =>
      cases hcolon
      exact endsDigits_cons (by decide) more

variable {first decimal : Bool} {text : List Char} {groups : List Nat}

theorem WritesGroups.breaks (h : WritesGroups false decimal text groups) (hrest : Breaks rest) :
    Breaks (text ++ rest) := by
  cases h with
  | nil => exact hrest
  | bytes =>
    rintro _ ⟨⟩
    rfl
  | group =>
    rintro _ ⟨⟩
    rfl

theorem EndsGroups.readGroups (h : EndsGroups rest) (limit : Nat) (first : Bool) :
    readGroups limit first rest = ([], false, rest) := by
  cases limit with
  | zero => rfl
  | succ limit =>
    have hbytes : (afterColon first rest).bind readV4 = none := by
      rw [Option.bind_eq_none_iff]
      intro behind hcolon
      exact readV4_eq_none ((h.behind hcolon).mono (by decide))
    have hgroup : (afterColon first rest).bind readGroup = none := by
      rw [Option.bind_eq_none_iff]
      intro behind hcolon
      exact readGroup_eq_none (h.behind hcolon)
    rw [Net.readGroups, hbytes, hgroup, ite_self]

theorem WritesGroups.read (h : WritesGroups first decimal text groups) {limit : Nat}
    (hlimit : groups.length ≤ limit) (hrest : EndsGroups rest) :
    readGroups limit first (text ++ rest) = (groups, decimal, rest) := by
  induction h generalizing limit with
  | nil first => exact hrest.readGroups limit first
  | bytes first bits =>
    obtain ⟨more, rfl⟩ := Nat.exists_eq_add_of_le' (show 2 ≤ limit from hlimit)
    have hcolon : afterColon first (colon first ++ v4Text bits ++ rest) = some (v4Text bits ++ rest) :=
      afterColon_eq_some.2 (List.append_assoc ..)
    have hread := readV4_complete bits (hrest.breaks.endsDigits.mono (by decide))
    rw [readGroups, if_neg (Nat.succ_ne_zero more), hcolon, Option.bind_some, hread]
  | @group first decimal digits text group groups hgroup hmore ih =>
    -- four bytes are tried first, and fail at the colon or the end behind the digits
    obtain ⟨more, rfl⟩ := Nat.exists_eq_add_of_le' (show 1 ≤ limit from Nat.one_le_of_lt hlimit)
    have hbreaks := hmore.breaks hrest.breaks
    have hcolon : afterColon first (colon first ++ digits ++ text ++ rest)
        = some (digits ++ (text ++ rest)) := by
      rw [afterColon_eq_some, List.append_assoc, List.append_assoc]
    have hbytes := readV4_group hgroup.areDigits hbreaks
    rw [readGroups, hcolon, Option.bind_some, hbytes, ite_self]
    dsimp only
    rw [Option.bind_some, hgroup.read hbreaks.endsDigits]
    dsimp only
    rw [ih (Nat.le_of_succ_le_succ hlimit)]

/-! ### Addresses -/

theorem readV6_sound {bits : BitVec 128} (h : readV6 cs = some (bits, [])) :
    Writes cs (.v6 bits) := by
  rcases hhead : readGroups 8 true cs with ⟨front, decimal, behind⟩
  obtain ⟨hlength, head, rfl, hfront⟩ := readGroups_sound hhead
  rw [readV6, hhead] at h
  dsimp only at h
  split at h
  · rename_i height
    cases h
    rw [List.append_nil]
    exact .whole hfront height
  · rename_i height
    cases decimal with
    | true => cases h
    | false =>
      rw [if_neg Bool.false_ne_true, Option.map_eq_some_iff] at h
      obtain ⟨more, hcolons, hmore⟩ := h
      obtain ⟨_, hfirst, hsecond⟩ := Option.bind_eq_some_iff.1 hcolons
      obtain rfl := after?_eq_some.1 hfirst
      obtain rfl := after?_eq_some.1 hsecond
      rcases htail : readGroups (7 - front.length) true more with ⟨back, last, after⟩
      obtain ⟨hseven, tail, rfl, hback⟩ := readGroups_sound htail
      rw [htail] at hmore
      cases hmore
      rw [List.append_nil]
      have hsum : front.length + back.length ≤ 7 := by omega
      exact .shortened hfront hback hsum

/-- No 128-bit address begins as a 32-bit one does. -/
theorem WritesGroups.readV4 (h : WritesGroups true decimal text groups)
    (hgroups : decimal = false ∨ groups.length = 8) (hrest : EndsGroups rest) :
    readV4 (text ++ rest) = none := by
  cases h with
  | nil => exact readV4_eq_none (hrest.breaks.endsDigits.mono (by decide))
  | bytes =>
    obtain hdecimal | hlength := hgroups
    · cases hdecimal
    · exact absurd hlength (by simp)
  | group hgroup hmore =>
    have hnone := readV4_group hgroup.areDigits (hmore.breaks hrest.breaks)
    rwa [← List.append_assoc] at hnone

theorem WritesGroups.readV6 (h : WritesGroups true decimal text groups)
    (height : groups.length = 8) : readV6 text = some (ofGroups groups, []) := by
  have hread := h.read height.le .nothing
  rw [List.append_nil] at hread
  rw [Net.readV6, hread]
  exact if_pos height

/-- The reader accepts exactly the texts that write an address. -/
theorem parse?_eq_some_iff {address : IpAddress} :
    IpAddress.parse? text = some address ↔ Writes text address := by
  constructor
  · intro h
    rw [IpAddress.parse?, IpAddress.read] at h
    cases hv4 : readV4 text with
    | some read =>
      obtain ⟨bits, _ | ⟨c, rest⟩⟩ := read <;> rw [hv4] at h <;> cases h
      rw [readV4_sound hv4, List.append_nil]
      exact .v4 bits
    | none =>
      rw [hv4] at h
      dsimp only at h
      cases hv6 : readV6 text with
      | some read =>
        obtain ⟨bits, _ | ⟨c, rest⟩⟩ := read <;> rw [hv6] at h <;> cases h
        exact readV6_sound hv6
      | none => rw [hv6] at h; cases h
  · intro h
    rw [IpAddress.parse?, IpAddress.read]
    cases h with
    | v4 bits =>
      have hread := readV4_complete bits (endsDigits_nil 10)
      rw [List.append_nil] at hread
      rw [hread]
    | whole hgroups height =>
      have hnone := hgroups.readV4 (.inr height) .nothing
      rw [List.append_nil] at hnone
      rw [hnone, hgroups.readV6 height]
      rfl
    | @shortened decimal head tail front back hfront hback hseven =>
      have hends := EndsGroups.colons tail
      have hnone := hfront.readV4 (.inl rfl) hends
      have hhead := hfront.read (show front.length ≤ 8 by omega) hends
      have htail := hback.read (show back.length ≤ 7 - front.length by omega) .nothing
      rw [List.append_nil] at htail
      have hcolon (more : List Char) : after? ':' (':' :: more) = some more := after?_eq_some.2 rfl
      rw [hnone, readV6, hhead]
      dsimp only
      rw [if_neg (by omega), if_neg Bool.false_ne_true, hcolon, Option.bind_some, hcolon,
        Option.map_some, htail]
      rfl

theorem Writes.unique {left right : IpAddress} (hleft : Writes text left)
    (hright : Writes text right) : left = right :=
  Option.some.inj ((parse?_eq_some_iff.2 hleft).symm.trans (parse?_eq_some_iff.2 hright))

/-! ### Characters of addresses -/

def IsPlain (c : Char) : Prop := (digitOf? 16 c).isSome = true ∨ c = '.' ∨ c = ':'

theorem IsPlain.not_blank {c : Char} (h : IsPlain c) : Text.isBlank c = false ∧ c ≠ '/' := by
  obtain hdigit | rfl | rfl := h
  · obtain ⟨hlow, hhigh⟩ := digitOf?_range hdigit
    constructor
    · simp [Text.isBlank]
      omega
    · rintro rfl
      exact absurd hlow (by decide)
  · decide
  · decide

theorem plain_digitsOf (n : Nat) : ∀ c ∈ Layout.digitsOf n, IsPlain c :=
  fun c hc => .inl (((areDigits_digitsOf n).mono (by decide)) c hc)

theorem plain_v4Text (bits : BitVec 32) : ∀ c ∈ v4Text bits, IsPlain c := by
  intro c hc
  simp only [v4Text, List.mem_append, List.mem_cons] at hc
  obtain ((hc | rfl | hc) | rfl | hc) | rfl | hc := hc
  all_goals first | exact plain_digitsOf _ c hc | exact .inr (.inl rfl)

theorem WritesGroups.plain {first decimal : Bool} {text : List Char} {groups : List Nat}
    (h : WritesGroups first decimal text groups) : ∀ c ∈ text, IsPlain c := by
  have hcolon (first : Bool) : ∀ c ∈ colon first, IsPlain c := by
    cases first with
    | true => nofun
    | false => exact List.forall_mem_singleton.2 (.inr (.inr rfl))
  induction h with
  | nil => nofun
  | bytes first bits =>
    exact List.forall_mem_append.2 ⟨hcolon first, plain_v4Text bits⟩
  | @group first decimal digits text group groups hgroup hrest ih =>
    refine List.forall_mem_append.2 ⟨List.forall_mem_append.2 ⟨hcolon first, ?_⟩, ih⟩
    exact fun c hc => .inl (hgroup.areDigits c hc)

theorem Writes.plain {text : List Char} {address : IpAddress} (h : Writes text address) :
    ∀ c ∈ text, IsPlain c := by
  cases h with
  | v4 bits => exact plain_v4Text bits
  | whole hgroups => exact hgroups.plain
  | shortened hfront hback =>
    refine List.forall_mem_append.2 ⟨hfront.plain, ?_⟩
    rw [List.forall_mem_cons, List.forall_mem_cons]
    exact ⟨.inr (.inr rfl), .inr (.inr rfl), hback.plain⟩

theorem trimBlanks_plain {cs : List Char} (h : ∀ c ∈ cs, IsPlain c) : Text.trimBlanks cs = cs := by
  have hkeep {cs : List Char} (h : ∀ c ∈ cs, IsPlain c) : cs.dropWhile Text.isBlank = cs := by
    rw [List.dropWhile_eq_self_iff]
    intro hpos
    rw [(h _ (List.getElem_mem hpos)).not_blank.1]
    exact Bool.false_ne_true
  have hback : ∀ c ∈ cs.reverse, IsPlain c := fun c hc => h c (List.mem_reverse.1 hc)
  rw [Text.trimBlanks, hkeep h, hkeep hback, List.reverse_reverse]

end Telemetry.Net
