import RockPaperScissors.Library.Tokenizer
import RockPaperScissors.MfccMatcher

namespace RockPaperScissors.ReferenceFile

open RockPaperScissors.Library.Tokenizer
open RockPaperScissors.MfccMatcher

structure SdCardDriver (σ : Type*) where
  fopen : String → σ → Int × σ
  read : Int → σ → Int × σ
  fclose : Int → σ → σ

def ValidHandle (file : Int) : Prop := 0 ≤ file ∧ file < 20

instance (file : Int) : Decidable (ValidHandle file) :=
  inferInstanceAs (Decidable (0 ≤ file ∧ file < 20))

def bufferLength : Nat := 4096

section Code

variable {σ : Type*} (drv : SdCardDriver σ)

/-- The reading loop with room for `room` more bytes: the text, or `none` on a
buffer overflow, and the value that ended the loop. -/
def readBytes (file : Int) : Nat → σ → Option (List UInt8) × Int × σ
  | 0, s =>
      let (byte, s) := drv.read file s
      if byte ≥ 0 then (none, byte, s) else (some [], byte, s)
  | room + 1, s =>
      let (byte, s) := drv.read file s
      if byte ≥ 0 then
        let (text, last, s) := readBytes file room s
        (text.map (UInt8.ofInt byte :: ·), last, s)
      else (some [], byte, s)

/-- The string the buffer holds once it is null terminated. -/
def cString (text : List UInt8) : List UInt8 := text.takeWhile (· != 0)

def isComma (c : UInt8) : Bool := c == 44

variable {K : Type*} (strtof : List UInt8 → K)

/-- The loop over `strtok`: the output array and the final `output_index`. -/
def storeTokens (text : List UInt8) (output : Nat → K) (outputIndex : Nat) :
    (Nat → K) × Nat :=
  match _h : nextToken isComma text with
  | none => (output, outputIndex)
  | some (token, rest) =>
      storeTokens rest (Function.update output outputIndex (strtof token))
        (outputIndex + 1)
termination_by text.length
decreasing_by exact length_lt_of_nextToken _h

structure Outcome (K σ : Type*) where
  returned : Bool
  file : Int
  byte : Int
  output : Nat → K
  outputIndex : Nat
  driver : σ

def getValuesFromSdCardFile (filename : String) (output : Nat → K) (s : σ) :
    Outcome K σ :=
  let (file, s) := drv.fopen filename s
  if file = -1 then ⟨false, file, 0, output, 0, s⟩
  else
    match readBytes drv file (bufferLength - 1) s with
    | (none, byte, s) => ⟨false, file, byte, output, 0, drv.fclose file s⟩
    | (some text, byte, s) =>
        let (output, outputIndex) := storeTokens strtof (cString text) output 0
        ⟨true, file, byte, output, outputIndex, drv.fclose file s⟩

end Code

section Calls

variable {σ : Type*} {drv : SdCardDriver σ} {K : Type*} (strtof : List UInt8 → K)

theorem file_getValuesFromSdCardFile (filename : String) (output : Nat → K) (s : σ) :
    (getValuesFromSdCardFile drv strtof filename output s).file = (drv.fopen filename s).1 := by
  simp only [getValuesFromSdCardFile]
  split
  · rfl
  · split <;> rfl

theorem driver_readBytes {P : σ → Prop} {file : Int}
    (hread : ∀ s, P s → P (drv.read file s).2) (room : Nat) {s : σ} (hs : P s) :
    P (readBytes drv file room s).2.2 := by
  induction room generalizing s with
  | zero =>
      simp only [readBytes]
      split <;> exact hread s hs
  | succ room ih =>
      simp only [readBytes]
      split
      · exact ih (hread s hs)
      · exact hread s hs

theorem driver_getValuesFromSdCardFile {Open : Int → σ → Prop} {Closed : σ → Prop}
    {filename : String} {s : σ}
    (hrefused : (drv.fopen filename s).1 = -1 → Closed (drv.fopen filename s).2)
    (hopen : (drv.fopen filename s).1 ≠ -1 →
      Open (drv.fopen filename s).1 (drv.fopen filename s).2)
    (hread : ∀ file s, Open file s → Open file (drv.read file s).2)
    (hclose : ∀ file s, Open file s → Closed (drv.fclose file s)) (output : Nat → K) :
    Closed (getValuesFromSdCardFile drv strtof filename output s).driver := by
  simp only [getValuesFromSdCardFile]
  split
  · next hfile => exact hrefused hfile
  · next hfile =>
      have hlast := driver_readBytes (hread _) (bufferLength - 1) (hopen hfile)
      split
      · next heq =>
          rw [heq] at hlast
          exact hclose _ _ hlast
      · next heq =>
          rw [heq] at hlast
          exact hclose _ _ hlast

theorem related_getValuesFromSdCardFile {R : σ → σ → Prop} [IsTrans σ R]
    (hopen : ∀ name s, R s (drv.fopen name s).2) (hread : ∀ file s, R s (drv.read file s).2)
    (hclose : ∀ file s, R s (drv.fclose file s)) (filename : String) (output : Nat → K)
    (s : σ) : R s (getValuesFromSdCardFile drv strtof filename output s).driver := by
  refine @driver_getValuesFromSdCardFile σ drv K strtof (fun _ => R s) (R s) filename s
    (fun _ => hopen filename s) (fun _ => hopen filename s) ?_ ?_ output
  · intro file t ht
    exact trans_of R ht (hread file t)
  · intro file t ht
    exact trans_of R ht (hclose file t)

end Calls

section Spec

variable {K : Type*} (strtof : List UInt8 → K)

/-- The fields between the commas of the string that are not empty. -/
def fields (text : List UInt8) : List (List UInt8) :=
  ((cString text).splitOnP isComma).filter fun field => !field.isEmpty

theorem storeTokens_of_none {text : List UInt8} (h : nextToken isComma text = none)
    (output : Nat → K) (outputIndex : Nat) :
    storeTokens strtof text output outputIndex = (output, outputIndex) := by
  rw [storeTokens]
  split <;> simp_all

theorem storeTokens_of_some {text token rest : List UInt8}
    (h : nextToken isComma text = some (token, rest)) (output : Nat → K)
    (outputIndex : Nat) :
    storeTokens strtof text output outputIndex =
      storeTokens strtof rest (Function.update output outputIndex (strtof token))
        (outputIndex + 1) := by
  rw [storeTokens]
  split <;> simp_all

theorem storeTokens_snd (text : List UInt8) (output : Nat → K) (outputIndex : Nat) :
    (storeTokens strtof text output outputIndex).2 =
      outputIndex + (tokens isComma text).length := by
  induction text, output, outputIndex using storeTokens.induct strtof with
  | case1 text output outputIndex hnone =>
      rw [storeTokens_of_none strtof hnone, tokens_of_none hnone]
      rfl
  | case2 text output outputIndex token rest hsome ih =>
      rw [storeTokens_of_some strtof hsome, tokens_of_some hsome, ih, List.length_cons]
      omega

def scriptedDriver (file : Int) : SdCardDriver (List Int) where
  fopen _ reads := (file, reads)
  read _
    | [] => (-1, [])
    | byte :: reads => (byte, reads)
  fclose _ reads := reads

theorem readBytes_scripted (file handle : Int) {bytes : List Int} {code : Int}
    (hbytes : ∀ b ∈ bytes, 0 ≤ b) (hcode : code < 0) (room : Nat) :
    readBytes (scriptedDriver file) handle room (bytes ++ [code]) =
      if bytes.length ≤ room then (some (bytes.map UInt8.ofInt), code, [])
      else (none, bytes.getD room 0, bytes.drop (room + 1) ++ [code]) := by
  induction room generalizing bytes with
  | zero =>
      cases bytes with
      | nil => simp [readBytes, scriptedDriver, not_le.mpr hcode]
      | cons b bytes =>
          have hb : 0 ≤ b := hbytes b (by simp)
          simp [readBytes, scriptedDriver, hb]
  | succ room ih =>
      cases bytes with
      | nil => simp [readBytes, scriptedDriver, not_le.mpr hcode]
      | cons b bytes =>
          have hb : 0 ≤ b := hbytes b (by simp)
          have hrest := @ih bytes fun c hc => hbytes c (by simp [hc])
          have hread : (scriptedDriver file).read handle (b :: (bytes ++ [code])) =
              (b, bytes ++ [code]) := rfl
          simp only [List.cons_append, readBytes, hread, ge_iff_le, hb, if_true, hrest]
          by_cases hlen : bytes.length ≤ room <;> simp [hlen]

/-- What a caller may rely on when the function returns true. -/
def LoadsReference {σ : Type*} (o : Outcome K σ) : Prop :=
  o.returned = true →
    ValidHandle o.file ∧ o.byte = -1 ∧ numFramesMfcc * numMfcc ≤ o.outputIndex

/-- The outcomes that are as promised: the call fails, or the file was open,
came to its end and has enough fields. -/
theorem loadsReference_iff (filename : String) (output : Nat → K) (file : Int)
    {bytes : List Int} {code : Int} (hbytes : ∀ b ∈ bytes, 0 ≤ b) (hcode : code < 0) :
    LoadsReference (getValuesFromSdCardFile (scriptedDriver file) strtof filename output
        (bytes ++ [code])) ↔
      file = -1 ∨ 4096 ≤ bytes.length ∨
        (ValidHandle file ∧ code = -1 ∧
          286 ≤ (fields (bytes.map UInt8.ofInt)).length) := by
  have hopen : (scriptedDriver file).fopen filename (bytes ++ [code]) =
      (file, bytes ++ [code]) := rfl
  have hread := readBytes_scripted file file hbytes hcode 4095
  simp only [getValuesFromSdCardFile, hopen, bufferLength, Nat.reduceSub, hread]
  by_cases hfile : file = -1
  · simp [LoadsReference, hfile]
  · by_cases hlen : bytes.length ≤ 4095
    · have hshort : ¬ 4096 ≤ bytes.length := by omega
      simp [LoadsReference, hfile, hlen, hshort, storeTokens_snd, tokens_eq_filter, fields,
        numFramesMfcc, numMfcc]
    · have hlong : 4096 ≤ bytes.length := by omega
      simp [LoadsReference, hfile, hlen, hlong]

def onesBytes : List Int := (List.replicate (numFramesMfcc * numMfcc) [49, 44]).flatten

theorem loadsReference_iff_onesBytes :
    (getValuesFromSdCardFile (scriptedDriver 0) (fun _ => (1 : ℚ)) "ROCK.TXT" (fun _ => 0)
        (onesBytes ++ [-1])).returned = true ∧
      LoadsReference (getValuesFromSdCardFile (scriptedDriver 0) (fun _ => (1 : ℚ)) "ROCK.TXT"
        (fun _ => 0) (onesBytes ++ [-1])) := by
  have hbytes : ∀ b ∈ onesBytes, 0 ≤ b := by decide +kernel
  have hfields : 286 ≤ (fields (onesBytes.map UInt8.ofInt)).length := by decide +kernel
  refine ⟨?_, ?_⟩
  · have hread := readBytes_scripted 0 0 hbytes (by decide : (-1 : Int) < 0) 4095
    have hlen : onesBytes.length ≤ 4095 := by decide +kernel
    have hopen : (scriptedDriver 0).fopen "ROCK.TXT" (onesBytes ++ [-1]) =
        (0, onesBytes ++ [-1]) := rfl
    simp [getValuesFromSdCardFile, hopen, bufferLength, hread, hlen]
  · exact (loadsReference_iff _ _ _ 0 hbytes (by decide)).mpr
      (.inr (.inr ⟨by decide, rfl, hfields⟩))

/-- The first read fails: the call returns true with nothing stored. -/
theorem not_loadsReference_read_error :
    ¬ LoadsReference (getValuesFromSdCardFile (scriptedDriver 0) (fun _ => (0 : ℚ))
        "ROCK.TXT" (fun _ => 0) [-2]) := by
  intro hloads
  have hbyte := (hloads rfl).2.1
  exact absurd hbyte (by decide)

end Spec

end RockPaperScissors.ReferenceFile
