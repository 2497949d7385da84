import Telemetry.Proofs.Net.AddressText

/-!
# The text of an address

The text that an address is given is one of those that write it. A 128-bit address is its eight groups,
written without needless zeros. What is left out between the two colons are zeros, whichever of several
runs it is, and it is at least two groups, so that the reader puts as many zeros in their place. Where
the last two groups are written as bytes the five before the mark are left out.
-/

namespace Telemetry.Net

open Telemetry.Number

/-! ### Groups of an address -/

theorem length_groupsOf (bits : BitVec 128) : (groupsOf bits).length = 8 := rfl

theorem groupsOf_lt (bits : BitVec 128) : ∀ group ∈ groupsOf bits, group < 65536 := by
  intro group hgroup
  obtain ⟨shift, -, rfl⟩ := List.mem_map.1 hgroup
  exact Nat.mod_lt _ (by decide)

theorem ofGroups_groupsOf (bits : BitVec 128) : ofGroups (groupsOf bits) = bits := by
  have hfirst : bits.toNat >>> 112 % 65536 = bits.toNat >>> 112 := by
    have hlt := bits.isLt
    rw [Nat.shiftRight_eq_div_pow]
    omega
  have hstep (shift : Nat) : bits.toNat >>> (shift + 16) * 65536 + bits.toNat >>> shift % 65536
      = bits.toNat >>> shift := by
    rw [Nat.shiftRight_add, Nat.shiftRight_eq_div_pow _ 16]
    exact Nat.div_add_mod' _ _
  rw [ofGroups, groupsOf]
  simp only [List.map_cons, List.map_nil, List.foldl_cons, List.foldl_nil, Nat.zero_mul, Nat.zero_add,
    hfirst]
  rw [hstep 96, hstep 80, hstep 64, hstep 48, hstep 32, hstep 16, hstep 0, Nat.shiftRight_zero,
    BitVec.ofNat_toNat, BitVec.setWidth_eq]

/-! ### Runs of zeros -/

theorem take_zeros {groups : List Nat} {length : Nat}
    (h : length ≤ (groups.takeWhile (· = 0)).length) : groups.take length = List.replicate length 0 := by
  have htake : groups.take length = (groups.takeWhile (· = 0)).take length := by
    rw [← List.take_append_of_le_length h, List.takeWhile_append_dropWhile]
  rw [htake, List.eq_replicate_iff, List.length_take, Nat.min_eq_left h]
  exact ⟨rfl, fun group hgroup => by simpa using List.mem_takeWhile_imp (List.mem_of_mem_take hgroup)⟩

/-- A run that was found is a run of zeros. -/
theorem longestZeros_le (groups : List Nat) : (longestZeros groups).2
    ≤ ((groups.drop (longestZeros groups).1).takeWhile (· = 0)).length := by
  rw [longestZeros]
  refine List.foldlRecOn (motive := fun best : Nat × Nat =>
    best.2 ≤ ((groups.drop best.1).takeWhile (· = 0)).length) _ _ (Nat.zero_le _) ?_
  intro best hbest start _
  dsimp only
  split
  · exact Nat.le_refl _
  · exact hbest

/-- Between the groups before the run and the groups after it there are only zeros. -/
theorem split_longestZeros (groups : List Nat) :
    groups.take (longestZeros groups).1 ++ List.replicate (longestZeros groups).2 0
      ++ groups.drop ((longestZeros groups).1 + (longestZeros groups).2) = groups := by
  rw [← take_zeros (longestZeros_le groups), ← List.drop_drop, List.append_assoc,
    List.take_append_drop, List.take_append_drop]

/-! ### Texts of groups -/

theorem writesGroup_hexDigits {group : Nat} (h : group < 65536) :
    WritesGroup (Text.hexDigits group) group := by
  have hlength : (Text.hexDigits group).length ≤ 4 :=
    (Nat.length_toDigits_le_iff (by decide) (by decide)).2 h
  obtain ⟨hdigits, hvalue⟩ := numberOf_toDigits (show 1 < 16 by decide) (by decide) group
  exact ⟨hdigits, Nat.toDigits_ne_nil, hlength, hvalue⟩

/-- Groups that follow others have a colon before them. -/
theorem WritesGroups.later {decimal : Bool} {text : List Char} {groups : List Nat}
    (h : WritesGroups true decimal text groups) (hsome : groups ≠ []) :
    WritesGroups false decimal (':' :: text) groups := by
  cases h with
  | nil => exact absurd rfl hsome
  | bytes _ bits => exact .bytes false bits
  | group hgroup hrest => exact .group hgroup hrest

theorem writesGroups_groupsText {groups : List Nat} (h : ∀ group ∈ groups, group < 65536) :
    WritesGroups true false (groupsText groups) groups := by
  fun_induction groupsText groups with
  | case1 => exact .nil true
  | case2 group =>
    have hone : WritesGroups true false (colon true ++ Text.hexDigits group ++ []) [group] :=
      .group (writesGroup_hexDigits (h group List.mem_cons_self)) (.nil false)
    rwa [List.append_nil] at hone
  | case3 group groups hsome ih =>
    have hrest := ih fun other hother => h other (List.mem_cons_of_mem group hother)
    exact .group (writesGroup_hexDigits (h group List.mem_cons_self)) (hrest.later hsome)

/-! ### Texts of addresses -/

/-- Groups with a run of zeros are written without the run. -/
theorem writes_groups {groups : List Nat} {start length : Nat} (height : groups.length = 8)
    (h : ∀ group ∈ groups, group < 65536) (hlength : 1 < length)
    (hsplit : groups.take start ++ List.replicate length 0 ++ groups.drop (start + length) = groups) :
    Writes (groupsText (groups.take start) ++ ':' :: ':' :: groupsText (groups.drop (start + length)))
      (.v6 (ofGroups groups)) := by
  have hfront : WritesGroups true false (groupsText (groups.take start)) (groups.take start) :=
    writesGroups_groupsText fun group hgroup => h group (List.mem_of_mem_take hgroup)
  have hback : WritesGroups true false (groupsText (groups.drop (start + length)))
      (groups.drop (start + length)) :=
    writesGroups_groupsText fun group hgroup => h group (List.mem_of_mem_drop hgroup)
  have hsum : (groups.take start).length + length + (groups.drop (start + length)).length = 8 := by
    have hlengths := congrArg List.length hsplit
    rwa [List.length_append, List.length_append, List.length_replicate, height] at hlengths
  have hshort := Writes.shortened hfront hback (by omega)
  have hzeros : 8 - (groups.take start).length - (groups.drop (start + length)).length = length := by
    omega
  rwa [hzeros, hsplit] at hshort

/-- The last two groups may be written as bytes. -/
theorem writes_mapped {bits : BitVec 128} (h : (groupsOf bits).take 6 = [0, 0, 0, 0, 0, 65535]) :
    Writes ("::ffff:".toList ++ v4Text (bits.truncate 32)) (.v6 bits) := by
  have hgroups : groupsOf bits = [0, 0, 0, 0, 0, 65535, (bits.truncate 32).toNat / 65536,
      (bits.truncate 32).toNat % 65536] := by
    have hlast : (groupsOf bits).drop 6
        = [(bits.truncate 32).toNat / 65536, (bits.truncate 32).toNat % 65536] := by
      show [bits.toNat >>> 16 % 65536, bits.toNat >>> 0 % 65536] = _
      rw [BitVec.truncate_eq_setWidth, BitVec.toNat_setWidth, Nat.shiftRight_eq_div_pow,
        Nat.shiftRight_zero]
      congr 1
      · omega
      · congr 1
        omega
    rw [← List.take_append_drop 6 (groupsOf bits), h, hlast]
    rfl
  have hmark : WritesGroup (Text.hexDigits 65535) 65535 := writesGroup_hexDigits (by decide)
  have hback : WritesGroups true true
      (colon true ++ Text.hexDigits 65535 ++ (colon false ++ v4Text (bits.truncate 32)))
      [65535, (bits.truncate 32).toNat / 65536, (bits.truncate 32).toNat % 65536] :=
    .group hmark (.bytes false (bits.truncate 32))
  have hshort := Writes.shortened (.nil true) hback (by simp)
  change Writes _ (.v6 (ofGroups [0, 0, 0, 0, 0, 65535, _, _])) at hshort
  rw [← hgroups, ofGroups_groupsOf] at hshort
  have htext : "::ffff:".toList = ':' :: ':' :: (Text.hexDigits 65535 ++ [':']) := by decide
  rw [htext, List.cons_append, List.cons_append, List.append_assoc]
  exact hshort

theorem writes_text (address : IpAddress) : Writes address.text address := by
  cases address with
  | v4 bits => exact .v4 bits
  | v6 bits =>
    have hgroups := groupsOf_lt bits
    rw [IpAddress.text, v6Text]
    dsimp only
    split
    · exact writes_mapped ‹_›
    · split
      · have hshort := writes_groups (length_groupsOf bits) hgroups ‹_› (split_longestZeros _)
        rwa [ofGroups_groupsOf] at hshort
      · have hwhole := Writes.whole (writesGroups_groupsText hgroups) (length_groupsOf bits)
        rwa [ofGroups_groupsOf] at hwhole

end Telemetry.Net
