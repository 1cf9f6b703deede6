import RockPaperScissors.SdCardDirectory

namespace RockPaperScissors.SdCardNames

open RockPaperScissors.AlteraSdCard
open RockPaperScissors.SdCardVolume
open RockPaperScissors.SdCardDirectory

section Code

/-- `copy_file_record_name_to_string`, without the null byte at the end. -/
def copyFileRecordNameToString (entry : DirectoryEntry) : List (BitVec 8) :=
  let name := ((List.range 8).map entry.name).filter (· != 0x20)
  if entry.extension 0 != 0x20 then
    name ++ 0x2E :: ((List.range 3).map entry.extension).filter (· != 0x20)
  else name

def nameString (name : List (BitVec 8)) : String :=
  String.ofList (name.map fun c => Char.ofNat c.toNat)

end Code

section ShortNames

/-- Neither the end of a string nor a space, a period or a divider. -/
def IsPlain (c : BitVec 8) : Prop := c ≠ 0x00 ∧ c ≠ 0x20 ∧ c ≠ 0x2E ∧ isDivider c = false

instance (c : BitVec 8) : Decidable (IsPlain c) :=
  inferInstanceAs (Decidable (c ≠ 0x00 ∧ c ≠ 0x20 ∧ c ≠ 0x2E ∧ isDivider c = false))

/-- A name of at most eight characters with an extension of at most three. -/
structure ShortName where
  base : List (BitVec 8)
  extension : List (BitVec 8)
  base_ne_nil : base ≠ []
  base_le : base.length ≤ 8
  extension_le : extension.length ≤ 3
  base_plain : ∀ c ∈ base, IsPlain c
  extension_plain : ∀ c ∈ extension, IsPlain c

namespace ShortName

def toBytes (n : ShortName) : List (BitVec 8) :=
  if n.extension = [] then n.base else n.base ++ 0x2E :: n.extension

/-- The record holds the name, filled up with spaces. -/
structure Fills (n : ShortName) (entry : DirectoryEntry) : Prop where
  name : ∀ i < 8, entry.name i = n.base.getD i 0x20
  extension : ∀ i < 3, entry.extension i = n.extension.getD i 0x20

theorem charToUpper_charToUpper (c : BitVec 8) : charToUpper (charToUpper c) = charToUpper c := by
  revert c
  decide

theorem isPlain_charToUpper {c : BitVec 8} : IsPlain c → IsPlain (charToUpper c) := by
  revert c
  decide

def upper (n : ShortName) : ShortName where
  base := n.base.map charToUpper
  extension := n.extension.map charToUpper
  base_ne_nil := by simpa using n.base_ne_nil
  base_le := by simpa using n.base_le
  extension_le := by simpa using n.extension_le
  base_plain := by
    intro c hc
    obtain ⟨b, hb, rfl⟩ := List.mem_map.mp hc
    exact isPlain_charToUpper (n.base_plain b hb)
  extension_plain := by
    intro c hc
    obtain ⟨b, hb, rfl⟩ := List.mem_map.mp hc
    exact isPlain_charToUpper (n.extension_plain b hb)

theorem toBytes_upper (n : ShortName) : n.toBytes.map charToUpper = n.upper.toBytes := by
  have hperiod : charToUpper 0x2E = 0x2E := by decide
  have hnil : n.upper.extension = [] ↔ n.extension = [] := List.map_eq_nil_iff
  by_cases h : n.extension = []
  · rw [toBytes, if_pos h, toBytes, if_pos (hnil.mpr h)]
    rfl
  · rw [toBytes, if_neg h, toBytes, if_neg (mt hnil.mp h), List.map_append, List.map_cons,
      hperiod]
    rfl

theorem map_getD_range (l : List (BitVec 8)) {n : Nat} (h : l.length ≤ n) :
    (List.range n).map (fun i => l.getD i 0x20) = l ++ List.replicate (n - l.length) 0x20 := by
  apply List.ext_getElem
  · simp
    omega
  · intro i hi _
    rw [List.getElem_map, List.getElem_range, List.getElem_append]
    split
    · next hlt => rw [List.getD_eq_getElem?_getD, List.getElem?_eq_getElem hlt, Option.getD_some]
    · next hge =>
        rw [List.getElem_replicate, List.getD_eq_getElem?_getD,
          List.getElem?_eq_none (not_lt.mp hge), Option.getD_none]

theorem filter_plain {l : List (BitVec 8)} (hplain : ∀ c ∈ l, IsPlain c) {n : Nat}
    (hlength : l.length ≤ n) {f : Nat → BitVec 8} (hf : ∀ i < n, f i = l.getD i 0x20) :
    ((List.range n).map f).filter (· != 0x20) = l := by
  have hfilled : (List.range n).map f = (List.range n).map fun i => l.getD i 0x20 :=
    List.map_congr_left fun i hi => hf i (List.mem_range.mp hi)
  have hkept : l.filter (· != 0x20) = l := by
    apply List.filter_eq_self.mpr
    intro c hc
    simpa using (hplain c hc).2.1
  rw [hfilled, map_getD_range l hlength, List.filter_append, hkept, List.filter_replicate_of_neg,
    List.append_nil]
  decide

theorem Fills.copyFileRecordNameToString {n : ShortName} {entry : DirectoryEntry}
    (h : n.Fills entry) : copyFileRecordNameToString entry = n.toBytes := by
  have hname := filter_plain n.base_plain n.base_le h.name
  have hextension := filter_plain n.extension_plain n.extension_le h.extension
  have hfirst := h.extension 0 (by decide)
  simp only [SdCardNames.copyFileRecordNameToString, hname, hextension, hfirst]
  cases hext : n.extension with
  | nil => rw [toBytes, if_pos hext, if_neg (by decide)]
  | cons c rest =>
      have hspace : c ≠ 0x20 := (n.extension_plain c (by rw [hext]; simp)).2.1
      have hne : n.extension ≠ [] := by rw [hext]; exact List.cons_ne_nil _ _
      rw [toBytes, if_neg hne, if_pos (by simpa using hspace), hext]

end ShortName

end ShortNames

section Compliance

open ShortName

theorem compliantFrom_base {base : List (BitVec 8)} (hplain : ∀ c ∈ base, IsPlain c)
    (rest : List (BitVec 8)) {index : Nat} (hlength : index + base.length ≤ 8) :
    compliantFrom (base ++ rest) index (-1) (-1) =
      compliantFrom rest ((index + base.length : Nat) : Int) (-1) (-1) := by
  induction base generalizing index with
  | nil => rfl
  | cons c base ih =>
      obtain ⟨-, hspace, hperiod, hdivider⟩ := hplain c List.mem_cons_self
      have hindex : ((index : Int) + 1) = ((index + 1 : Nat) : Int) := rfl
      rw [List.length_cons] at hlength ⊢
      rw [List.cons_append, compliantFrom, if_neg, if_neg (by simp [hdivider]), if_neg hperiod,
        hindex, ih (fun c hc => hplain c (List.mem_cons_of_mem _ hc)) (by omega)]
      · congr 2
        omega
      · rintro (h | ⟨-, h⟩ | ⟨h, -⟩ | ⟨h, -⟩)
        · exact hspace h
        · rw [hdivider] at h
          exact absurd h Bool.false_ne_true
        · omega
        · exact h rfl

theorem compliantFrom_extension {extension : List (BitVec 8)}
    (hplain : ∀ c ∈ extension, IsPlain c) {period index : Int} (hafter : period < index)
    (hlength : index + extension.length ≤ period + 4) :
    compliantFrom extension index (-1) period = true := by
  induction extension generalizing index with
  | nil => rfl
  | cons c extension ih =>
      obtain ⟨-, hspace, hperiod, hdivider⟩ := hplain c List.mem_cons_self
      rw [List.length_cons, Nat.cast_succ] at hlength
      rw [compliantFrom, if_neg, if_neg (by simp [hdivider]), if_neg hperiod]
      · exact ih (fun c hc => hplain c (List.mem_cons_of_mem _ hc)) (by omega) (by omega)
      · rintro (h | ⟨-, h⟩ | ⟨h, -⟩ | ⟨-, h, -⟩)
        · exact hspace h
        · rw [hdivider] at h
          exact absurd h Bool.false_ne_true
        · omega
        · omega

theorem not_isDivider_getLast {l : List (BitVec 8)} (hplain : ∀ c ∈ l, IsPlain c ∨ c = 0x2E) :
    l.getLast?.any isDivider = false := by
  rw [Option.any_eq_false]
  intro c hc
  rcases hplain c (List.mem_of_getLast? hc) with h | rfl
  · exact h.2.2.2
  · decide

theorem checkFileNameForFat16Compliance_toBytes (n : ShortName) :
    checkFileNameForFat16Compliance n.toBytes = true := by
  have hcompliant : compliantFrom n.toBytes 0 (-1) (-1) = true := by
    have hbase := fun rest => compliantFrom_base n.base_plain rest ((Nat.zero_add _).trans_le n.base_le)
    rw [toBytes]
    split
    · rw [← List.append_nil n.base]
      exact hbase []
    · refine (hbase _).trans ?_
      have hlength := n.base_le
      have hpos : 0 < n.base.length := List.length_pos_iff.mpr n.base_ne_nil
      have hext := n.extension_le
      rw [compliantFrom, if_neg, if_neg (by decide), if_pos rfl]
      · exact compliantFrom_extension n.extension_plain (by omega) (by omega)
      · rintro (h | ⟨-, h⟩ | ⟨-, h⟩ | ⟨h, -⟩)
        · exact absurd h (by decide)
        · exact absurd h (by decide)
        · exact h rfl
        · exact h rfl
  have hlast : n.toBytes.getLast?.any isDivider = false := by
    apply not_isDivider_getLast
    intro c hc
    rw [toBytes] at hc
    split at hc
    · exact .inl (n.base_plain c hc)
    · rcases List.mem_append.mp hc with hc | hc
      · exact .inl (n.base_plain c hc)
      · rcases List.mem_cons.mp hc with rfl | hc
        · exact .inr rfl
        · exact .inl (n.extension_plain c hc)
  rw [checkFileNameForFat16Compliance, hcompliant, hlast]
  rfl

end Compliance

section Splitting

open ShortName

/-- The characters of `l` written from the index `k` on. -/
def overwrite (f : Nat → BitVec 8) (k : Nat) (l : List (BitVec 8)) (i : Nat) : BitVec 8 :=
  if k ≤ i then l[i - k]?.getD (f i) else f i

theorem overwrite_nil (f : Nat → BitVec 8) (k : Nat) : overwrite f k [] = f := by
  funext i
  simp [overwrite]

theorem overwrite_update (f : Nat → BitVec 8) (k : Nat) (c : BitVec 8) (l : List (BitVec 8)) :
    overwrite (Function.update f k c) (k + 1) l = overwrite f k (c :: l) := by
  funext i
  rcases Nat.lt_trichotomy i k with hlt | rfl | hgt
  · rw [overwrite, if_neg (by omega), overwrite, if_neg (by omega),
      Function.update_of_ne hlt.ne]
  · rw [overwrite, if_neg (by omega), overwrite, if_pos le_rfl, Function.update_self, Nat.sub_self]
    rfl
  · obtain ⟨j, rfl⟩ : ∃ j, i = k + 1 + j := ⟨i - (k + 1), by omega⟩
    have hindex : k + 1 + j - k = j + 1 := by omega
    rw [overwrite, if_pos (by omega), overwrite, if_pos (by omega),
      Function.update_of_ne (by omega), hindex, List.getElem?_cons_succ, Nat.add_sub_cancel_left]

theorem overwrite_zero (l : List (BitVec 8)) (i : Nat) :
    overwrite (fun _ => 0x20) 0 l i = l.getD i 0x20 := by
  rw [overwrite, if_pos i.zero_le, Nat.sub_zero, List.getD_eq_getElem?_getD]

theorem splitFrom_base {base : List (BitVec 8)} (hplain : ∀ c ∈ base, IsPlain c)
    (rest : List (BitVec 8)) (index : Nat) (name extension : Nat → BitVec 8) :
    splitFrom (base ++ rest) index none (name, extension) =
      splitFrom rest (index + base.length) none (overwrite name index base, extension) := by
  induction base generalizing index name with
  | nil =>
      rw [overwrite_nil]
      rfl
  | cons c base ih =>
      have hperiod := (hplain c List.mem_cons_self).2.2.1
      rw [List.cons_append, splitFrom, if_neg hperiod]
      rw [ih (fun c hc => hplain c (List.mem_cons_of_mem _ hc)), overwrite_update,
        List.length_cons, Nat.add_right_comm, Nat.add_assoc]

theorem splitFrom_extension {l : List (BitVec 8)} (hplain : ∀ c ∈ l, IsPlain c)
    (period k : Nat) (name extension : Nat → BitVec 8) :
    splitFrom l (period + 1 + k) (some period) (name, extension) =
      (name, overwrite extension k l) := by
  induction l generalizing k extension with
  | nil =>
      rw [overwrite_nil]
      rfl
  | cons c l ih =>
      have hperiod := (hplain c List.mem_cons_self).2.2.1
      have hindex : period + 1 + k - period - 1 = k := by omega
      rw [splitFrom, if_neg hperiod]
      simp only [hindex]
      rw [Nat.add_assoc, ih (fun c hc => hplain c (List.mem_cons_of_mem _ hc)), overwrite_update]

theorem nameAndExtension_toBytes (n : ShortName) :
    nameAndExtension n.toBytes =
      (overwrite (fun _ => 0x20) 0 n.base, overwrite (fun _ => 0x20) 0 n.extension) := by
  have hbase := fun rest => splitFrom_base n.base_plain rest 0 (fun _ => 0x20) fun _ => 0x20
  rw [nameAndExtension, toBytes]
  split
  · next hnil =>
      have hsplit := hbase []
      rw [List.append_nil] at hsplit
      rw [hsplit, hnil, overwrite_nil]
      rfl
  · rw [hbase, splitFrom, if_pos rfl]
    exact splitFrom_extension n.extension_plain _ 0 _ _

theorem matchFileRecordToNameExt_congr (entry : DirectoryEntry)
    {name name' extension extension' : Nat → BitVec 8}
    (hname : ∀ i < 8, charToUpper (name i) = charToUpper (name' i))
    (hextension : ∀ i < 3, charToUpper (extension i) = charToUpper (extension' i)) :
    matchFileRecordToNameExt entry name extension =
      matchFileRecordToNameExt entry name' extension' := by
  rw [Bool.eq_iff_iff]
  simp only [matchFileRecordToNameExt, Bool.and_eq_true, List.all_eq_true, List.mem_range,
    beq_iff_eq]
  apply and_congr
  · exact forall₂_congr fun i hi => by rw [hname i hi]
  · exact forall₂_congr fun i hi => by rw [hextension i hi]

theorem charToUpper_getD (l : List (BitVec 8)) (i : Nat) :
    charToUpper ((l.map charToUpper).getD i 0x20) = charToUpper (l.getD i 0x20) := by
  rw [List.getD_eq_getElem?_getD, List.getD_eq_getElem?_getD, List.getElem?_map]
  cases l[i]? with
  | none => rfl
  | some c => exact charToUpper_charToUpper c

theorem ShortName.Fills.match_eq {n : ShortName} {entry : DirectoryEntry} (h : n.Fills entry)
    (other : DirectoryEntry) :
    matchFileRecordToNameExt other (nameAndExtension n.upper.toBytes).1
        (nameAndExtension n.upper.toBytes).2 =
      matchFileRecordToNameExt other entry.name entry.extension := by
  rw [nameAndExtension_toBytes]
  apply matchFileRecordToNameExt_congr
  · intro i hi
    change charToUpper (overwrite _ 0 n.upper.base i) = _
    rw [overwrite_zero, h.name i hi]
    exact charToUpper_getD n.base i
  · intro i hi
    change charToUpper (overwrite _ 0 n.upper.extension i) = _
    rw [overwrite_zero, h.extension i hi]
    exact charToUpper_getD n.extension i

end Splitting

section Lookup

variable {v : Volume}

theorem map_toList_nameString (name : List (BitVec 8)) :
    (nameString name).toList.map (fun c => charToUpper (BitVec.ofNat 8 c.toNat)) =
      name.map charToUpper := by
  have hchar : ∀ c : BitVec 8, BitVec.ofNat 8 (Char.ofNat c.toNat).toNat = c := by decide
  rw [nameString, String.toList_ofList, List.map_map]
  apply List.map_congr_left
  intro c _
  exact congrArg charToUpper (hchar c)

/-- The records that the listing shows under the name of the record `i`. -/
def SharesName (v : Volume) (i j : Nat) : Prop :=
  (rootRecord v j).isFile = true ∧
    matchFileRecordToNameExt (rootRecord v j) (rootRecord v i).name (rootRecord v i).extension =
      true

theorem lookup_nameString {n : ShortName} {i : Nat} (h : n.Fills (rootRecord v i)) :
    lookup v (nameString (copyFileRecordNameToString (rootRecord v i))) =
      (List.range (rootSize v)).find? fun j => (rootRecord v j).isFile &&
        matchFileRecordToNameExt (rootRecord v j) (rootRecord v i).name
          (rootRecord v i).extension := by
  have hname : (nameString n.toBytes).toList.map
      (fun c => charToUpper (BitVec.ofNat 8 c.toNat)) = n.upper.toBytes :=
    (map_toList_nameString n.toBytes).trans n.toBytes_upper
  rw [h.copyFileRecordNameToString, lookup, hname,
    if_pos (checkFileNameForFat16Compliance_toBytes n.upper)]
  congr 1
  funext j
  rw [isNamed, h.match_eq]

theorem matchFileRecordToNameExt_self (entry : DirectoryEntry) :
    matchFileRecordToNameExt entry entry.name entry.extension = true := by
  simp [matchFileRecordToNameExt]

/-- The name of the first record that is listed under it leads to that record. -/
theorem lookup_nameString_eq_some {n : ShortName} {i : Nat} (h : n.Fills (rootRecord v i))
    (hi : i < rootSize v) (hfile : (rootRecord v i).isFile = true)
    (hfirst : ∀ j < i, ¬ SharesName v i j) :
    lookup v (nameString (copyFileRecordNameToString (rootRecord v i))) = some i := by
  rw [lookup_nameString h, List.find?_range_eq_some]
  refine ⟨?_, List.mem_range.mpr hi, fun j hj => ?_⟩
  · rw [hfile, matchFileRecordToNameExt_self]
    rfl
  · rw [Bool.not_eq_true', ← Bool.not_eq_true, Bool.and_eq_true]
    exact hfirst j hj

end Lookup

end RockPaperScissors.SdCardNames
