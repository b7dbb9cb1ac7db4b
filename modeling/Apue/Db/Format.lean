import Apue.Base.Tiling
import Apue.Db.Model

/-! # Index records

An index record as a value, the bytes that stand for it, and the round trip: what `_db_writeidx` and
`_db_writeptr` write is the encoding of a record or of a pointer, and `_db_readptr` and
`_db_readidx` read the fields back.
-/

namespace Apue.Db

open Apue.Base

/-- An index record, with the data record it refers to (without its newline). -/
structure Entry where
  ptr : Nat
  key : Bytes
  doff : Nat
  data : Bytes
  deriving DecidableEq, Repr

def encPtr (n : Nat) : Bytes := (padLeft ptrSz (decimal n)).take ptrSz

def encLen (n : Nat) : Bytes := (padLeft idxlenSz (decimal n)).take idxlenSz

namespace Entry

/-- The length of the data record, newline included. -/
def dlen (e : Entry) : Nat := e.data.length + 1

def text (e : Entry) : Bytes := idxText e.key e.doff e.dlen

def enc (e : Entry) : Bytes := encPtr e.ptr ++ encLen e.text.length ++ e.text

def withPtr (e : Entry) (v : Nat) : Entry := { e with ptr := v }

/-- The records the library can read back. -/
structure Ok (e : Entry) : Prop where
  ptr : e.ptr ≤ ptrMax
  keyClean : NulFree e.key
  keySep : sep ∉ e.key
  textMin : idxlenMin ≤ e.text.length
  textMax : e.text.length ≤ idxlenMax
  doff : e.doff < 2 ^ 63
  dataClean : NulFree e.data
  dataMin : 1 ≤ e.data.length
  dataMax : e.data.length < datlenMax

end Entry

/-! ## Pointers and lengths -/

@[simp] theorem encPtr_length (n : Nat) : (encPtr n).length = 7 := by
  simp [encPtr, padLeft, ptrSz]
  omega

@[simp] theorem encLen_length (n : Nat) : (encLen n).length = 4 := by
  simp [encLen, padLeft, idxlenSz]
  omega

theorem encPtr_of_le {n : Nat} (small : n ≤ ptrMax) : encPtr n = padLeft ptrSz (decimal n) := by
  have fits : (decimal n).length ≤ ptrSz :=
    (decimal_length_le (by decide)).2 (Nat.lt_succ_of_le small)
  rw [encPtr, List.take_of_length_le (Nat.le_of_eq (padLeft_length fits))]

theorem encLen_of_le {n : Nat} (small : n ≤ idxlenMax) :
    encLen n = padLeft idxlenSz (decimal n) := by
  have fits : (decimal n).length ≤ idxlenSz :=
    (decimal_length_le (by decide)).2 (Nat.lt_of_le_of_lt small (by decide))
  rw [encLen, List.take_of_length_le (Nat.le_of_eq (padLeft_length fits))]

theorem atol_encPtr {n : Nat} (small : n ≤ ptrMax) : atol (encPtr n) = n := by
  rw [encPtr_of_le small]
  simpa using atol_padLeft ptrSz (Nat.lt_of_le_of_lt small (by decide)) [] (by simp)

theorem sizeT_atoi_encLen {n : Nat} (small : n ≤ idxlenMax) : sizeT (atoi (encLen n)) = n := by
  have value : atol (encLen n) = n := by
    rw [encLen_of_le small]
    simpa using atol_padLeft idxlenSz (Nat.lt_of_le_of_lt small (by decide)) [] (by simp)
  rw [atoi, value, cInt_of_small (Nat.lt_of_le_of_lt small (by decide)),
    sizeT_natCast (Nat.lt_of_le_of_lt small (by decide))]

/-- The two numbers in front of an index record are read back. -/
theorem atol_front {n : Nat} (small : n ≤ ptrMax) (len : Nat) :
    atol ((encPtr n ++ encLen len).take ptrSz) = n := by
  rw [List.take_append_of_le_length (by simp [ptrSz]), List.take_of_length_le (by simp [ptrSz]),
    atol_encPtr small]

theorem sizeT_atoi_front {len : Nat} (n : Nat) (small : len ≤ idxlenMax) :
    sizeT (atoi ((encPtr n ++ encLen len).drop ptrSz)) = len := by
  rw [List.drop_append_of_le_length (by simp [ptrSz]), List.drop_eq_nil_of_le (by simp [ptrSz]),
    List.nil_append,
    sizeT_atoi_encLen small]

/-- What `_db_writeptr` writes. -/
theorem writeptr_buffer (n : Nat) : (padLeft ptrSz (decimalInt n)).take ptrSz = encPtr n := by
  rw [decimalInt_natCast, encPtr]

/-- What `_db_writeidx` writes before the text. -/
theorem writeidx_buffer {n len : Nat} (small : n ≤ ptrMax) (short : len ≤ idxlenMax) :
    (padLeft ptrSz (decimalInt n) ++ padLeft idxlenSz (decimal len)).take (ptrSz + idxlenSz) =
    encPtr n ++ encLen len := by
  rw [decimalInt_natCast, ← encPtr_of_le small, ← encLen_of_le short,
    List.take_of_length_le (by simp [ptrSz, idxlenSz])]

theorem idxText_eq (key : Bytes) (datoff datlen : Nat) :
    idxText key datoff datlen = key ++
      sep :: (decimal datoff ++ sep :: (decimal datlen ++ [newline])) := by
  simp [idxText, decimalInt_natCast]

/-- `_db_readidx` finds the fields in the text of an index record, with any blanks and newlines in
its key. -/
theorem parse_idxText {key : Bytes} {datoff datlen : Nat} (clean : NulFree key) (plain : sep ∉ key)
    (low : datoff < 2 ^ 63)
    (positive : 0 < datlen) (small : datlen ≤ datlenMax) :
    ∃ rest, parseIdxbuf (idxText key datoff datlen) = .ok { idxbuf := key ++ 0 :: rest, datoff := datoff, datlen := datlen } := by
  have last : (idxText key datoff datlen).getLast? = some newline := by
    rw [idxText_eq]
    simp [List.getLast?_append, List.getLast?_cons]
  have noNewline : (idxText key datoff datlen).dropLast ++ [0] =
      key ++ sep :: (decimal datoff ++ sep :: (decimal datlen ++ [0])) := by
    have : idxText key datoff datlen = (key ++ sep :: (decimal datoff ++ sep :: decimal datlen)) ++
        [newline] := by
      simp [idxText_eq]
    rw [this, List.dropLast_concat]
    simp
  have digits (n : Nat) : sep ∉ decimal n := notMem_decimal (by decide)
  have first : strchr (key ++ sep :: (decimal datoff ++ sep :: (decimal datlen ++ [0]))) sep =
      some key.length :=
    strchr_append clean plain (by decide) _
  have afterFirst : (key ++ sep :: (decimal datoff ++ sep :: (decimal datlen ++ [0]))).set
      key.length 0 =
      key ++ 0 :: (decimal datoff ++ sep :: (decimal datlen ++ [0])) := by
    simp
  have drop1 (b : UInt8) (rest : Bytes) : (key ++ b :: rest).drop (key.length + 1) = rest := by
    simp [List.drop_append]
  have second : strchr (decimal datoff ++ sep :: (decimal datlen ++ [0])) sep =
      some (decimal datoff).length :=
    strchr_append (nulFree_decimal _) (digits _) (by decide) _
  have afterSecond : (key ++ 0 :: (decimal datoff ++ sep :: (decimal datlen ++ [0]))).set
      (key.length + 1 + (decimal datoff).length) 0 = key ++
        0 :: (decimal datoff ++ 0 :: (decimal datlen ++ [0])) := by
    rw [List.set_append, if_neg (by omega), Nat.add_assoc, Nat.add_sub_cancel_left, Nat.add_comm 1,
      List.set_cons_succ]
    simp
  have drop2 : (key ++ 0 :: (decimal datoff ++ 0 :: (decimal datlen ++ [0]))).drop
      (key.length + 1 + (decimal datoff).length + 1) = decimal datlen ++ [0] := by
    rw [Nat.add_assoc, ← List.drop_drop, drop1]
    simp [List.drop_append]
  have third : strchr (decimal datlen ++ [0]) sep = none :=
    strchr_eq_none (by rw [cstr_append_zero (nulFree_decimal _)]; exact digits _)
  have offset : atol (decimal datoff ++ 0 :: (decimal datlen ++ [0])) = datoff :=
    atol_decimal_append low _ (by simp; decide)
  have bound : datlen ≤ 1024 := small
  have length : sizeT (atol (decimal datlen ++ [0])) = datlen := by
    rw [atol_decimal_append (by omega) _ (by simp; decide), sizeT_natCast (by omega)]
  refine ⟨decimal datoff ++ 0 :: (decimal datlen ++ [0]), ?_⟩
  unfold parseIdxbuf
  simp only [last, noNewline, first, afterFirst, drop1, second, afterSecond, drop2, third, offset,
    length, ne_eq,
    not_true_eq_false, if_false]
  rw [if_neg (by omega), if_neg (by simp only [datlenMax]; omega)]

/-! ## Records -/

namespace Entry

theorem text_eq (e : Entry) :
    e.text = e.key ++ sep :: (decimal e.doff ++ sep :: (decimal e.dlen ++ [newline])) :=
  idxText_eq e.key e.doff e.dlen

theorem enc_length (e : Entry) : e.enc.length = 11 + e.text.length := by
  simp [enc]
  omega

theorem enc_solid (e : Entry) : 0 < e.enc.length := by
  rw [enc_length]
  omega

theorem text_length (e : Entry) :
    e.text.length = e.key.length + (decimal e.doff).length + (decimal e.dlen).length + 3 := by
  simp [text_eq]
  omega

@[simp] theorem withPtr_text (e : Entry) (v : Nat) : (e.withPtr v).text = e.text := rfl

@[simp] theorem withPtr_ptr (e : Entry) (v : Nat) : (e.withPtr v).ptr = v := rfl

@[simp] theorem withPtr_key (e : Entry) (v : Nat) : (e.withPtr v).key = e.key := rfl

theorem Ok.withPtr {e : Entry} (ok : e.Ok) {v : Nat} (small : v ≤ ptrMax) : (e.withPtr v).Ok :=
  ⟨small, ok.keyClean, ok.keySep, ok.textMin, ok.textMax, ok.doff, ok.dataClean, ok.dataMin,
    ok.dataMax⟩

/-- `_db_readidx` finds the fields of a well-formed record. -/
theorem Ok.parse {e : Entry} (ok : e.Ok) :
    ∃ rest, parseIdxbuf e.text = .ok { idxbuf := e.key ++ 0 :: rest, datoff := e.doff, datlen := e.dlen } :=
  parse_idxText ok.keyClean ok.keySep ok.doff (Nat.succ_pos _) ok.dataMax

end Entry

/-- The checks of `_db_readidx` on an index record, and the errors of its system calls. -/
def Err.ofReadidx : Err → Bool
  | .readidxLseek | .readidxReadv | .readidxIdxlen | .readidxRead | .readidxNewline | .readidxFirstSep | .readidxSecondSep
  | .readidxManySeps | .readidxDatoff | .readidxDatlen => true
  | _ => false

/-- The checks on the text of an index record have errors of their own. -/
theorem parseIdxbuf_error {idxbuf : Bytes} {error : Err}
    (parsed : parseIdxbuf idxbuf = .error error) :
    error.ofReadidx = true := by
  simp only [parseIdxbuf] at parsed
  repeat' split at parsed
  all_goals
    cases parsed
    try rfl

end Apue.Db
