import RockPaperScissors.CalculateMfcc
import RockPaperScissors.ReferenceFile
import Mathlib.Tactic.Ring

namespace RockPaperScissors.ReferenceStores

open RockPaperScissors.CalculateMfcc
open RockPaperScissors.Library.Tokenizer
open RockPaperScissors.MfccMatcher
open RockPaperScissors.RecordLoop
open RockPaperScissors.ReferenceFile

def referenceLength : Nat := (bufSize / fftShift) * numMfcc

section Stores

variable {K : Type*} (strtof : List UInt8 → K)

/-- The assignments `output[output_index++] = strtof(token, NULL)` of the loop
over `strtok`, in order. -/
def tokenStores (text : List UInt8) (outputIndex : Nat) : List (Nat × K) :=
  match _h : nextToken isComma text with
  | none => []
  | some (token, rest) => (outputIndex, strtof token) :: tokenStores rest (outputIndex + 1)
termination_by text.length
decreasing_by exact length_lt_of_nextToken _h

def performStores (output : Nat → K) (stores : List (Nat × K)) : Nat → K :=
  stores.foldl (fun output store => Function.update output store.1 store.2) output

theorem performStores_append (output : Nat → K) (stores stores' : List (Nat × K)) :
    performStores output (stores ++ stores') =
      performStores (performStores output stores) stores' :=
  List.foldl_append

theorem tokenStores_of_none {text : List UInt8} (h : nextToken isComma text = none)
    (outputIndex : Nat) : tokenStores strtof text outputIndex = [] := by
  rw [tokenStores]
  split <;> simp_all

theorem tokenStores_of_some {text token rest : List UInt8}
    (h : nextToken isComma text = some (token, rest)) (outputIndex : Nat) :
    tokenStores strtof text outputIndex =
      (outputIndex, strtof token) :: tokenStores strtof rest (outputIndex + 1) := by
  rw [tokenStores]
  split <;> simp_all

/-- The loop does nothing to `output` but perform its assignments. -/
theorem storeTokens_eq_performStores (text : List UInt8) (output : Nat → K)
    (outputIndex : Nat) :
    storeTokens strtof text output outputIndex =
      (performStores output (tokenStores strtof text outputIndex),
        outputIndex + (tokenStores strtof text outputIndex).length) := by
  induction text, output, outputIndex using storeTokens.induct strtof with
  | case1 text output outputIndex hnone =>
      rw [storeTokens_of_none strtof hnone, tokenStores_of_none strtof hnone]
      rfl
  | case2 text output outputIndex token rest hsome ih =>
      rw [storeTokens_of_some strtof hsome, tokenStores_of_some strtof hsome, ih,
        List.length_cons, Nat.add_right_comm, Nat.add_assoc]
      rfl

theorem tokenStores_eq (text : List UInt8) (outputIndex : Nat) :
    tokenStores strtof text outputIndex =
      ((tokens isComma text).zipIdx outputIndex).map fun p => (p.2, strtof p.1) := by
  induction text, outputIndex using tokenStores.induct with
  | case1 text outputIndex hnone =>
      rw [tokenStores_of_none strtof hnone, tokens_of_none hnone]
      rfl
  | case2 text outputIndex token rest hsome ih =>
      rw [tokenStores_of_some strtof hsome, tokens_of_some hsome, ih]
      rfl

theorem tokenStores_indices (text : List UInt8) (outputIndex : Nat) :
    (tokenStores strtof text outputIndex).map Prod.fst =
      List.range' outputIndex (tokens isComma text).length := by
  rw [tokenStores_eq, List.map_map, ← List.zipIdx_map_snd outputIndex (tokens isComma text)]
  rfl

theorem performStores_zipIdx (values : List K) (output : Nat → K) (outputIndex k : Nat) :
    performStores output ((values.zipIdx outputIndex).map fun p => (p.2, p.1)) k =
      if k < outputIndex then output k else (values[k - outputIndex]?).getD (output k) := by
  induction values generalizing output outputIndex with
  | nil => simp [performStores]
  | cons v values ih =>
      have hrest := ih (Function.update output outputIndex v) (outputIndex + 1)
      change performStores (Function.update output outputIndex v)
        ((values.zipIdx (outputIndex + 1)).map fun p => (p.2, p.1)) k = _
      rw [hrest]
      rcases lt_trichotomy k outputIndex with hlt | rfl | hgt
      · rw [if_pos (by omega), if_pos hlt, Function.update_of_ne hlt.ne]
      · simp
      · obtain ⟨j, rfl⟩ := Nat.exists_eq_add_of_lt hgt
        have hindex : outputIndex + j + 1 - outputIndex = j + 1 := by omega
        have hindex' : outputIndex + j + 1 - (outputIndex + 1) = j := by omega
        rw [if_neg (by omega), if_neg (by omega), hindex, hindex', List.getElem?_cons_succ,
          Function.update_of_ne (by omega)]

theorem performStores_tokenStores (text : List UInt8) (output : Nat → K) (k : Nat) :
    performStores output (tokenStores strtof text 0) k =
      (((tokens isComma text)[k]?).map strtof).getD (output k) := by
  have hzip : tokenStores strtof text 0 =
      (((tokens isComma text).map strtof).zipIdx 0).map fun p => (p.2, p.1) := by
    rw [tokenStores_eq, List.zipIdx_map, List.map_map]
    rfl
  rw [hzip, performStores_zipIdx, if_neg (Nat.not_lt_zero k), Nat.sub_zero,
    List.getElem?_map]

end Stores

section Calls

variable {σ : Type*} (drv : SdCardDriver σ) {K : Type*} (strtof : List UInt8 → K)

def storesAfterReading (file : Int) (room : Nat) (s : σ) : List (Nat × K) :=
  match readBytes drv file room s with
  | (none, _, _) => []
  | (some text, _, _) => tokenStores strtof (cString text) 0

def callStores (filename : String) (s : σ) : List (Nat × K) :=
  let (file, s) := drv.fopen filename s
  if file = -1 then [] else storesAfterReading drv strtof file (bufferLength - 1) s

theorem output_getValuesFromSdCardFile (filename : String) (output : Nat → K) (s : σ) :
    (getValuesFromSdCardFile drv strtof filename output s).output =
      performStores output (callStores drv strtof filename s) := by
  simp only [getValuesFromSdCardFile, callStores]
  split
  · rfl
  · rw [storesAfterReading]
    rcases readBytes drv (drv.fopen filename s).1 (bufferLength - 1)
      (drv.fopen filename s).2 with ⟨_ | text, byte, s'⟩
    · rfl
    · exact congrArg Prod.fst (storeTokens_eq_performStores strtof (cString text) output 0)

/-- No assignment of the call leaves the caller's array. -/
def StoresInBounds (filename : String) (s : σ) : Prop :=
  ∀ store ∈ callStores drv strtof filename s, store.1 < referenceLength

end Calls

section Delivered

variable {K : Type*} (strtof : List UInt8 → K)

theorem storesAfterReading_scripted (file handle : Int) {bytes : List Int} {code : Int}
    (hbytes : ∀ b ∈ bytes, 0 ≤ b) (hcode : code < 0) (room : Nat) :
    storesAfterReading (scriptedDriver file) strtof handle room (bytes ++ [code]) =
      if bytes.length ≤ room then tokenStores strtof (cString (bytes.map UInt8.ofInt)) 0
      else [] := by
  rw [storesAfterReading, readBytes_scripted file handle hbytes hcode]
  by_cases hlen : bytes.length ≤ room
  · rw [if_pos hlen, if_pos hlen]
  · rw [if_neg hlen, if_neg hlen]

theorem callStores_scripted (filename : String) (file : Int) {bytes : List Int} {code : Int}
    (hbytes : ∀ b ∈ bytes, 0 ≤ b) (hcode : code < 0) :
    callStores (scriptedDriver file) strtof filename (bytes ++ [code]) =
      if file = -1 ∨ 4096 ≤ bytes.length then []
      else tokenStores strtof (cString (bytes.map UInt8.ofInt)) 0 := by
  have hcall : callStores (scriptedDriver file) strtof filename (bytes ++ [code]) =
      if file = -1 then []
      else storesAfterReading (scriptedDriver file) strtof file (bufferLength - 1)
        (bytes ++ [code]) := rfl
  rw [hcall, storesAfterReading_scripted strtof file file hbytes hcode]
  by_cases hfile : file = -1
  · rw [if_pos hfile, if_pos (Or.inl hfile)]
  · rw [if_neg hfile]
    by_cases hlong : 4096 ≤ bytes.length
    · have hroom : ¬ bytes.length ≤ bufferLength - 1 := by
        simp only [bufferLength]
        omega
      rw [if_neg hroom, if_pos (Or.inr hlong)]
    · have hroom : bytes.length ≤ bufferLength - 1 := by
        simp only [bufferLength]
        omega
      rw [if_pos hroom, if_neg (not_or.mpr ⟨hfile, hlong⟩)]

theorem tokenStores_lt_iff (text : List UInt8) (n : Nat) :
    (∀ store ∈ tokenStores strtof text 0, store.1 < n) ↔
      (tokens isComma text).length ≤ n := by
  have hindices := tokenStores_indices strtof text 0
  have hforall : (∀ store ∈ tokenStores strtof text 0, store.1 < n) ↔
      ∀ k ∈ (tokenStores strtof text 0).map Prod.fst, k < n := by
    simp
  rw [hforall, hindices]
  constructor
  · intro h
    by_contra hlong
    exact lt_irrefl n (h n (by simp; omega))
  · intro h k hk
    simp only [List.mem_range'_1] at hk
    omega

def delivered (text : List UInt8) : List Int := text.map fun c => (c.toNat : Int)

theorem delivered_nonneg {text : List UInt8} : ∀ b ∈ delivered text, 0 ≤ b := by
  intro b hb
  obtain ⟨c, -, rfl⟩ := List.mem_map.mp hb
  exact Int.natCast_nonneg _

@[simp] theorem length_delivered (text : List UInt8) :
    (delivered text).length = text.length := by
  simp [delivered]

@[simp] theorem map_delivered (text : List UInt8) :
    (delivered text).map UInt8.ofInt = text := by
  have hchar : ∀ c : UInt8, UInt8.ofInt (c.toNat : Int) = c := by
    intro c
    have hlt := c.toNat_lt
    rw [UInt8.ofInt, Int.emod_eq_of_lt (by omega) (by omega), Int.toNat_natCast,
      UInt8.ofNat_toNat]
  rw [delivered, List.map_map]
  exact List.map_id'' hchar text

def onesText (n : Nat) : List UInt8 := (List.replicate n [49, 44]).flatten

theorem length_tokens_onesText (n : Nat) : (tokens isComma (onesText n)).length = n := by
  induction n with
  | zero =>
      have hnone : nextToken isComma (onesText 0) = none := rfl
      rw [tokens_of_none hnone, List.length_nil]
  | succ n ih =>
      have hnext : nextToken isComma (onesText (n + 1)) = some ([49], onesText n) := by
        simp [onesText, List.replicate_succ, nextToken, isComma]
      rw [tokens_of_some hnext, List.length_cons, ih]

theorem length_onesText (n : Nat) : (onesText n).length = n * 2 := by
  rw [onesText, List.length_flatten, List.map_replicate, List.sum_replicate]
  rfl

theorem cString_onesText (n : Nat) : cString (onesText n) = onesText n := by
  apply List.takeWhile_eq_self_iff.mpr
  intro c hc
  simp only [onesText, List.mem_flatten, List.mem_replicate] at hc
  obtain ⟨l, ⟨-, rfl⟩, hc⟩ := hc
  have hchar : c = 49 ∨ c = 44 := by simpa using hc
  rcases hchar with rfl | rfl
  · rfl
  · rfl

/-- The stores stay inside the array exactly if there is nothing to store or
the text has no more non-empty fields than the array has entries. -/
theorem storesInBounds_iff (filename : String) (file : Int) {bytes : List Int} {code : Int}
    (hbytes : ∀ b ∈ bytes, 0 ≤ b) (hcode : code < 0) :
    StoresInBounds (scriptedDriver file) strtof filename (bytes ++ [code]) ↔
      file = -1 ∨ 4096 ≤ bytes.length ∨
        (fields (bytes.map UInt8.ofInt)).length ≤ referenceLength := by
  rw [StoresInBounds, callStores_scripted strtof filename file hbytes hcode, ← or_assoc]
  by_cases hnone : file = -1 ∨ 4096 ≤ bytes.length
  · simp [hnone]
  · rw [if_neg hnone, tokenStores_lt_iff, tokens_eq_filter]
    simp [hnone, fields]

theorem storesInBounds_iff_onesText :
    (fields (onesText 299)).length = referenceLength ∧
      StoresInBounds (scriptedDriver 0) (fun _ => (0 : ℚ)) "ROCK.TXT"
        (delivered (onesText 299) ++ [-1]) := by
  have hfields : (fields (onesText 299)).length = referenceLength := by
    rw [fields, cString_onesText, ← tokens_eq_filter, length_tokens_onesText]
    rfl
  refine ⟨hfields, (storesInBounds_iff _ _ 0 delivered_nonneg (by decide)).mpr ?_⟩
  rw [map_delivered]
  exact .inr (.inr hfields.le)

/-- The value of field 299 is stored behind the end of the array. -/
theorem not_storesInBounds_onesText :
    ¬ StoresInBounds (scriptedDriver 0) (fun _ => (0 : ℚ)) "ROCK.TXT"
      (delivered (onesText 300) ++ [-1]) := by
  have hlen : (onesText 300).length = 300 * 2 := length_onesText 300
  rw [StoresInBounds, callStores_scripted _ _ _ delivered_nonneg (by decide),
    length_delivered, hlen, if_neg (by decide), map_delivered, cString_onesText,
    tokenStores_lt_iff, length_tokens_onesText]
  decide

end Delivered

section Positions

variable {K : Type*} (strtof : List UInt8 → K)

/-- `output'` holds the values of the fields from index 0 on, and what `output`
holds behind them. -/
def HoldsFields (fields : List (List UInt8)) (output output' : Nat → K) : Prop :=
  (∀ k (h : k < fields.length), output' k = strtof fields[k]) ∧
    ∀ k, fields.length ≤ k → output' k = output k

theorem holdsFields_performStores (text : List UInt8) (output : Nat → K) :
    HoldsFields strtof (tokens isComma text) output
      (performStores output (tokenStores strtof text 0)) := by
  constructor
  · intro k hk
    rw [performStores_tokenStores, List.getElem?_eq_getElem hk]
    rfl
  · intro k hk
    rw [performStores_tokenStores, List.getElem?_eq_none hk]
    rfl

theorem cString_of_not_mem {text : List UInt8} (hnul : 0 ∉ text) : cString text = text := by
  apply List.takeWhile_eq_self_iff.mpr
  intro c hc
  have hne : c ≠ 0 := by
    rintro rfl
    exact hnul hc
  simpa using hne

theorem output_of_delivered (filename : String) {file : Int} (hfile : file ≠ -1)
    {text : List UInt8} (hlen : text.length ≤ 4095) (hnul : 0 ∉ text) (output : Nat → K) :
    (getValuesFromSdCardFile (scriptedDriver file) strtof filename output
        (delivered text ++ [-1])).output =
      performStores output (tokenStores strtof text 0) := by
  have hstored : ¬ (file = -1 ∨ 4096 ≤ (delivered text).length) := by
    rw [length_delivered]
    omega
  rw [output_getValuesFromSdCardFile,
    callStores_scripted strtof filename file delivered_nonneg (by decide), if_neg hstored,
    map_delivered, cString_of_not_mem hnul]

theorem file_ne_of_returned {filename : String} {file : Int} {output : Nat → K}
    {reads : List Int}
    (h : (getValuesFromSdCardFile (scriptedDriver file) strtof filename output
      reads).returned = true) : file ≠ -1 := by
  rintro rfl
  exact absurd h Bool.false_ne_true

/-- The entries are the values of the fields that are not empty, in order. -/
theorem holdsFields_filter (filename : String) {file : Int} {text : List UInt8}
    (hlen : text.length ≤ 4095) (hnul : 0 ∉ text) (output : Nat → K)
    (hreturned : (getValuesFromSdCardFile (scriptedDriver file) strtof filename output
      (delivered text ++ [-1])).returned = true) :
    HoldsFields strtof ((text.splitOnP isComma).filter fun field => !field.isEmpty) output
      (getValuesFromSdCardFile (scriptedDriver file) strtof filename output
        (delivered text ++ [-1])).output := by
  rw [output_of_delivered strtof filename (file_ne_of_returned strtof hreturned) hlen hnul,
    ← tokens_eq_filter]
  exact holdsFields_performStores strtof text output

def digitsValue (digits : List UInt8) : ℚ :=
  digits.foldl (fun value c => 10 * value + ((c.toNat : ℚ) - 48)) 0

def commaOne : List UInt8 := [44, 49]

theorem holdsFields_filter_commaOne :
    HoldsFields digitsValue ((commaOne.splitOnP isComma).filter fun field => !field.isEmpty)
      (fun _ => 0)
      (getValuesFromSdCardFile (scriptedDriver 0) digitsValue "ROCK.TXT" (fun _ => 0)
        (delivered commaOne ++ [-1])).output :=
  holdsFields_filter digitsValue "ROCK.TXT" (by decide) (by decide) _ rfl

/-- The value of field 1 is stored at index 0. -/
theorem not_holdsFields_commaOne :
    commaOne.length ≤ 4095 ∧ 0 ∉ commaOne ∧
      (commaOne.splitOnP isComma).length ≤ referenceLength ∧
      (getValuesFromSdCardFile (scriptedDriver 0) digitsValue "ROCK.TXT" (fun _ => 0)
        (delivered commaOne ++ [-1])).returned = true ∧
      ¬ HoldsFields digitsValue (commaOne.splitOnP isComma) (fun _ => 0)
        (getValuesFromSdCardFile (scriptedDriver 0) digitsValue "ROCK.TXT" (fun _ => 0)
          (delivered commaOne ++ [-1])).output := by
  refine ⟨by decide, by decide, by decide, rfl, ?_⟩
  have hsplit : commaOne.splitOnP isComma = [[], [49]] := by decide
  rw [output_of_delivered digitsValue "ROCK.TXT" (by decide) (by decide) (by decide), hsplit]
  rintro ⟨hfields, -⟩
  have hfirst := hfields 0 (by decide)
  have hchar : (49 : UInt8).toNat = 49 := rfl
  rw [performStores_tokenStores, tokens_eq_filter, hsplit] at hfirst
  norm_num [digitsValue, hchar] at hfirst

/-- The table is positional when no field is empty. -/
theorem holdsFields_of_forall_ne_nil (filename : String) {file : Int} {text : List UInt8}
    (hlen : text.length ≤ 4095) (hnul : 0 ∉ text)
    (hfields : ∀ field ∈ text.splitOnP isComma, field ≠ []) (output : Nat → K)
    (hfile : file ≠ -1) :
    HoldsFields strtof (text.splitOnP isComma) output
      (getValuesFromSdCardFile (scriptedDriver file) strtof filename output
        (delivered text ++ [-1])).output := by
  have hall : (text.splitOnP isComma).filter (fun field => !field.isEmpty) =
      text.splitOnP isComma := by
    apply List.filter_eq_self.mpr
    intro field hfield
    simpa using hfields field hfield
  rw [output_of_delivered strtof filename hfile hlen hnul]
  have h := holdsFields_performStores strtof text output
  rwa [tokens_eq_filter, hall] at h

end Positions

end RockPaperScissors.ReferenceStores
