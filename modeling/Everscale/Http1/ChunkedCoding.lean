/-
# Everscale.Http1.ChunkedCoding -- the chunked transfer coding, octet by octet

What a chunked body means, apart from how it arrives.  `Decoder` reads one octet at
a time and says what it has delivered; once it is complete the octets are no longer
its own and are kept as leftover.  `ChunkedBody` is a well-formed body as a tree and
`ChunkedBody.encode` its octets; `decode_encode` says that the decoder delivers the
data of its chunks and stops at its end.

The decoder follows the parser of this repository where that is laxer than the
grammar: any octets up to a line feed stand for a line break, a size without
digits is zero, and a size counts modulo `2 ^ 64`.
-/
import Everscale.Http1.MessageParser

namespace Everscale

set_option autoImplicit false

open HttpUtil
open HttpMessageParser (hexValue)

/-- How much of a trailer line has been read. -/
inductive TrailerLine where
  | start
  | carriageReturn
  | inside
  deriving DecidableEq, Repr

inductive ChunkPhase where
  /-- `begun` once a digit has been read -/
  | size (begun : Bool)
  | extension
  | data
  | endChunk
  | trailer (line : TrailerLine)
  | complete
  deriving DecidableEq, Repr

structure Decoder where
  phase : ChunkPhase := .size false
  remaining : Nat := 0
  delivered : List Octet := []
  leftover : List Octet := []
  deriving DecidableEq, Repr

namespace Decoder

/-- An octet of the rest of a size line. -/
def stepExtension (d : Decoder) (c : Octet) : Decoder :=
  if c = LF then { d with phase := if d.remaining = 0 then .trailer .start else .data }
  else { d with phase := .extension }

/-- The value of a size after one more digit. -/
def withDigit (size : Nat) (c : Octet) : Nat := (size * 16 + hexValue c) % 2 ^ 64

def stepSize (begun : Bool) (d : Decoder) (c : Octet) : Decoder :=
  if isHex c then { d with phase := .size true, remaining := withDigit d.remaining c }
  else if isSpace c && !begun then d
  else d.stepExtension c

def stepTrailer (line : TrailerLine) (c : Octet) : ChunkPhase :=
  match line with
  | .start => if c = LF then .complete else if c = CR then .trailer .carriageReturn
      else .trailer .inside
  | .carriageReturn => if c = LF then .complete else .trailer .inside
  | .inside => if c = LF then .trailer .start else .trailer .inside

def step (d : Decoder) (c : Octet) : Decoder :=
  match d.phase with
  | .size begun => d.stepSize begun c
  | .extension => d.stepExtension c
  | .data =>
      { d with
        phase := if d.remaining ≤ 1 then .endChunk else .data
        remaining := d.remaining - 1
        delivered := d.delivered ++ [c] }
  | .endChunk => if c = LF then { d with phase := .size false } else d
  | .trailer line => { d with phase := stepTrailer line c }
  | .complete => { d with leftover := d.leftover ++ [c] }

/-- Reads octets in order. -/
def read (d : Decoder) (u : List Octet) : Decoder := u.foldl step d

@[simp] theorem read_nil (d : Decoder) : d.read [] = d := rfl

@[simp] theorem read_cons (d : Decoder) (c : Octet) (u : List Octet) :
    d.read (c :: u) = (d.step c).read u := rfl

@[simp] theorem read_append (d : Decoder) (u v : List Octet) :
    d.read (u ++ v) = (d.read u).read v := List.foldl_append

/-! ## What a stretch of octets does -/

theorem read_spaces {d : Decoder} (h : d.phase = .size false) {u : List Octet}
    (spaces : ∀ c ∈ u, isSpace c = true ∧ isHex c = false) : d.read u = d := by
  induction u with
  | nil => rfl
  | cons c rest ih =>
      obtain ⟨space, other⟩ := spaces c List.mem_cons_self
      have here : d.step c = d := by simp [step, h, stepSize, space, other]
      rw [read_cons, here]
      exact ih fun e inside => spaces e (List.mem_cons_of_mem c inside)

theorem read_digits {d : Decoder} {begun : Bool} (h : d.phase = .size begun) {u : List Octet}
    (digits : ∀ c ∈ u, isHex c = true) :
    d.read u = { d with
      phase := .size (begun || !u.isEmpty), remaining := u.foldl withDigit d.remaining } := by
  induction u generalizing d begun with
  | nil => simp [← h]
  | cons c rest ih =>
      have here : d.step c =
          { d with phase := .size true, remaining := withDigit d.remaining c } := by
        simp [step, h, stepSize, digits c List.mem_cons_self]
      have phase : (d.step c).phase = .size true := by rw [here]
      rw [read_cons, ih phase fun e inside => digits e (List.mem_cons_of_mem c inside), here]
      simp

theorem read_extension {d : Decoder} (h : d.phase = .extension) {u : List Octet} (line : LF ∉ u) :
    d.read u = d := by
  induction u with
  | nil => rfl
  | cons c rest ih =>
      have ne : c ≠ LF := fun eq => line (by simp [eq])
      have here : d.step c = d := by
        simp only [step, h, stepExtension, ne, if_false]; rw [← h]
      rw [read_cons, here]
      exact ih fun inside => line (List.mem_cons_of_mem c inside)

/-- The octet that ends a size is the first of the rest of its line. -/
theorem read_afterSize {d : Decoder} {begun : Bool} (h : d.phase = .size begun) {c : Octet}
    (other : isHex c = false) (stays : isSpace c = true → begun = true) (rest : List Octet) :
    d.read (c :: rest) = { d with phase := .extension }.read (c :: rest) := by
  have black : (isSpace c && !begun) = false := by
    cases space : isSpace c with
    | false => rfl
    | true => simp [stays space]
  simp only [read_cons, step, h, stepSize, other, black, Bool.false_eq_true, if_false]
  rfl

theorem read_data {d : Decoder} (h : d.phase = .data) {u : List Octet} (some : u ≠ [])
    (fits : u.length ≤ d.remaining) :
    d.read u = { d with
      phase := if d.remaining = u.length then .endChunk else .data
      remaining := d.remaining - u.length
      delivered := d.delivered ++ u } := by
  induction u generalizing d with
  | nil => exact absurd rfl some
  | cons c rest ih =>
      simp only [List.length_cons] at fits
      cases rest with
      | nil =>
          simp only [read_cons, read_nil, step, h, List.length_singleton]
          have : d.remaining ≤ 1 ↔ d.remaining = 1 := by simp at fits; omega
          simp only [this]
      | cons e rest =>
          simp only [List.length_cons] at fits
          have more : ¬ d.remaining ≤ 1 := by omega
          have here : d.step c =
              { d with remaining := d.remaining - 1, delivered := d.delivered ++ [c] } := by
            simp only [step, h, more, if_false]
          have fits' : (e :: rest).length ≤ d.remaining - 1 := by simp; omega
          rw [read_cons, here, ih (d := { d with
            remaining := d.remaining - 1, delivered := d.delivered ++ [c] }) h
            (List.cons_ne_nil e rest) fits']
          simp only [List.length_cons, List.append_assoc, List.singleton_append]
          have : d.remaining - 1 = rest.length + 1 ↔ d.remaining = rest.length + 1 + 1 := by omega
          simp only [this, Nat.sub_sub, Nat.add_comm 1]

/-- The octets of a chunk are delivered, and the decoder does not leave the chunk's end. -/
theorem read_data_delivers {d : Decoder} (h : d.phase = .data) {u : List Octet}
    (fits : u.length ≤ d.remaining) :
    (d.read u).delivered = d.delivered ++ u ∧ (d.read u).leftover = d.leftover ∧
      ((d.read u).phase = .data ∨ (d.read u).phase = .endChunk) := by
  by_cases none : u = []
  · subst none; exact ⟨by simp, rfl, .inl h⟩
  · rw [read_data h none fits]
    refine ⟨rfl, rfl, ?_⟩
    simp only
    split
    · exact .inr rfl
    · exact .inl rfl

theorem read_endChunk {d : Decoder} (h : d.phase = .endChunk) {u : List Octet} (line : LF ∉ u) :
    d.read u = d := by
  induction u with
  | nil => rfl
  | cons c rest ih =>
      have ne : c ≠ LF := fun eq => line (by simp [eq])
      have here : d.step c = d := by simp only [step, h, ne, if_false]
      rw [read_cons, here]
      exact ih fun inside => line (List.mem_cons_of_mem c inside)

theorem read_inside {d : Decoder} (h : d.phase = .trailer .inside) {u : List Octet} (line : LF ∉ u) :
    d.read u = d := by
  induction u with
  | nil => rfl
  | cons c rest ih =>
      have ne : c ≠ LF := fun eq => line (by simp [eq])
      have here : d.step c = d := by
        simp only [step, h, stepTrailer, ne, if_false]; rw [← h]
      rw [read_cons, here]
      exact ih fun inside => line (List.mem_cons_of_mem c inside)

theorem read_complete {d : Decoder} (h : d.phase = .complete) (u : List Octet) :
    d.read u = { d with leftover := d.leftover ++ u } := by
  induction u generalizing d with
  | nil => simp
  | cons c rest ih =>
      have here : d.step c = { d with leftover := d.leftover ++ [c] } := by simp only [step, h]
      rw [read_cons, here, ih (d := { d with leftover := d.leftover ++ [c] }) h]
      simp

/-- A line that holds nothing but its line break. -/
def IsBlank (line : List Octet) : Prop := line = [] ∨ line = [CR]

/-- A trailer line without its line feed moves the decoder inside a line, if anywhere. -/
theorem read_trailer {d : Decoder} (h : d.phase = .trailer .start) {line : List Octet}
    (noFeed : LF ∉ line) :
    ∃ part, d.read line = { d with phase := .trailer part } ∧
      (IsBlank line ↔ part ≠ .inside) := by
  match line, noFeed with
  | [], _ => exact ⟨.start, by simp [← h], by simp [IsBlank]⟩
  | c :: rest, noFeed =>
      have ne : c ≠ LF := fun eq => noFeed (by simp [eq])
      have noFeed' : LF ∉ rest := fun inside => noFeed (List.mem_cons_of_mem c inside)
      by_cases cr : c = CR
      · subst cr
        match rest, noFeed' with
        | [], _ => exact ⟨.carriageReturn, by simp [step, h, stepTrailer, ne], by simp [IsBlank]⟩
        | e :: rest, noFeed' =>
            have ne' : e ≠ LF := fun eq => noFeed' (by simp [eq])
            refine ⟨.inside, ?_, by simp [IsBlank]⟩
            rw [read_cons, read_cons]
            simp only [step, h, stepTrailer, ne, ne', if_false, if_true]
            exact read_inside rfl fun inside => noFeed' (List.mem_cons_of_mem e inside)
      · refine ⟨.inside, ?_, by simp [IsBlank, cr]⟩
        rw [read_cons]
        simp only [step, h, stepTrailer, ne, cr, if_false]
        exact read_inside rfl noFeed'

theorem read_trailerLine {d : Decoder} (h : d.phase = .trailer .start) {line : List Octet}
    (noFeed : LF ∉ line) [Decidable (IsBlank line)] :
    d.read (line ++ [LF]) =
      { d with phase := if IsBlank line then .complete else .trailer .start } := by
  obtain ⟨part, read, blank⟩ := read_trailer h noFeed
  rw [read_append, read]
  simp only [blank, read_cons, read_nil, step]
  cases part <;> simp [stepTrailer]

/-- A size line that has its first digit, up to and including its line break. -/
theorem read_sizeLine {d : Decoder} (h : d.phase = .size false) {size extension : List Octet}
    (some : size ≠ []) (digits : ∀ c ∈ size, isHex c = true) (line : LF ∉ extension)
    (apart : ∀ c ∈ extension.head?, isHex c = false) :
    d.read (size ++ extension ++ [CR, LF]) = { d with
      phase := if size.foldl withDigit d.remaining = 0 then .trailer .start else .data
      remaining := size.foldl withDigit d.remaining } := by
  have begun : (false || !size.isEmpty) = true := by cases size <;> simp_all
  have behind : ∃ c rest, extension ++ [CR] = c :: rest ∧ isHex c = false := by
    cases extension with
    | nil => exact ⟨CR, [], rfl, by decide⟩
    | cons c rest => exact ⟨c, rest ++ [CR], rfl, apart c rfl⟩
  obtain ⟨c, rest, shape, other⟩ := behind
  have noFeed : LF ∉ c :: rest := by
    rw [← shape]; simpa using line
  have split : extension ++ [CR, LF] = (c :: rest) ++ [LF] := by rw [← shape]; simp
  rw [List.append_assoc, read_append, read_digits h digits, split, begun, read_append,
    read_afterSize rfl other fun _ => rfl, read_extension rfl noFeed]
  simp only [read_cons, read_nil, step, stepExtension, if_true]

theorem read_trailerLines {d : Decoder} (h : d.phase = .trailer .start) {lines : List (List Octet)}
    (nonblank : ∀ line ∈ lines, line ≠ [] ∧ LF ∉ line) :
    d.read (lines.flatMap (· ++ [CR, LF])) = d := by
  induction lines with
  | nil => rfl
  | cons line rest ih =>
      obtain ⟨some, noFeed⟩ := nonblank line List.mem_cons_self
      have written : ¬ IsBlank (line ++ [CR]) := by
        cases line with
        | nil => exact absurd rfl some
        | cons c line => simp [IsBlank]
      have noFeed' : LF ∉ line ++ [CR] := by simpa using noFeed
      classical
      have here : d.read (line ++ [CR, LF]) = d := by
        have := read_trailerLine h noFeed'
        rw [if_neg written, List.append_assoc] at this
        rw [← h] at this
        exact this
      rw [List.flatMap_cons, read_append, here]
      exact ih fun line inside => nonblank line (List.mem_cons_of_mem _ inside)

end Decoder

/-! ## Well-formed bodies -/

/-- The number that hexadecimal digits spell. -/
def sizeValue (digits : List Octet) : Nat := digits.foldl (fun n c => n * 16 + hexValue c) 0

/-- A chunk: its size line and its data.  The size is the number of its octets, in 64
bits. -/
structure Chunk where
  size : List Octet
  extension : List Octet
  data : List Octet
  digits : ∀ c ∈ size, isHex c = true
  value : sizeValue size = data.length
  nonempty : data ≠ []
  bound : data.length < 2 ^ 64
  line : LF ∉ extension
  apart : ∀ c ∈ extension.head?, isHex c = false

/-- A chunked body: chunks, the size line of the last chunk and the trailer. -/
structure ChunkedBody where
  chunks : List Chunk
  zeros : List Octet
  extension : List Octet
  trailer : List (List Octet)
  some : zeros ≠ []
  allZero : ∀ c ∈ zeros, c = octet '0'
  line : LF ∉ extension
  apart : ∀ c ∈ extension.head?, isHex c = false
  nonblank : ∀ line ∈ trailer, line ≠ [] ∧ LF ∉ line

def Chunk.encode (chunk : Chunk) : List Octet :=
  chunk.size ++ chunk.extension ++ [CR, LF] ++ (chunk.data ++ [CR, LF])

namespace ChunkedBody

/-- The octets of a chunked body. -/
def encode (body : ChunkedBody) : List Octet :=
  body.chunks.flatMap Chunk.encode ++ (body.zeros ++ body.extension ++ [CR, LF]) ++
    (body.trailer.flatMap (· ++ [CR, LF]) ++ [CR, LF])

/-- What it carries. -/
def data (body : ChunkedBody) : List Octet := body.chunks.flatMap Chunk.data

end ChunkedBody

namespace Decoder

theorem foldl_withDigit (digits : List Octet) (n : Nat) :
    digits.foldl withDigit (n % 2 ^ 64) =
      digits.foldl (fun n c => n * 16 + hexValue c) n % 2 ^ 64 := by
  induction digits generalizing n with
  | nil => rfl
  | cons c rest ih =>
      have here : withDigit (n % 2 ^ 64) c = (n * 16 + hexValue c) % 2 ^ 64 := by
        simp only [withDigit]; omega
      rw [List.foldl_cons, List.foldl_cons, here, ih]

/-- A size is read as the number it spells, in 64 bits. -/
theorem withDigit_sizeValue (digits : List Octet) :
    digits.foldl withDigit 0 = sizeValue digits % 2 ^ 64 := foldl_withDigit digits 0

theorem foldl_withDigit_zeros {zeros : List Octet} (all : ∀ c ∈ zeros, c = octet '0') :
    zeros.foldl withDigit 0 = 0 := by
  induction zeros with
  | nil => rfl
  | cons c rest ih =>
      have here : withDigit 0 c = 0 := by rw [all c List.mem_cons_self]; decide
      rw [List.foldl_cons, here]
      exact ih fun e inside => all e (List.mem_cons_of_mem c inside)

/-- Between chunks the decoder has nothing but what it delivered. -/
def between (delivered : List Octet) : Decoder := { delivered }

theorem read_chunk (delivered : List Octet) (chunk : Chunk) :
    (between delivered).read chunk.encode = between (delivered ++ chunk.data) := by
  have size : chunk.size.foldl withDigit 0 = chunk.data.length := by
    rw [withDigit_sizeValue, chunk.value, Nat.mod_eq_of_lt chunk.bound]
  have positive : chunk.data.length ≠ 0 := by simpa using chunk.nonempty
  have some : chunk.size ≠ [] := fun none => by
    rw [none] at size; exact positive size.symm
  rw [Chunk.encode, read_append, read_sizeLine rfl some chunk.digits chunk.line chunk.apart]
  simp only [between, size, positive, if_false]
  rw [read_append, read_data rfl chunk.nonempty (Nat.le_refl _)]
  simp [step]

theorem read_chunks (delivered : List Octet) (chunks : List Chunk) :
    (between delivered).read (chunks.flatMap Chunk.encode) =
      between (delivered ++ chunks.flatMap Chunk.data) := by
  induction chunks generalizing delivered with
  | nil => simp
  | cons chunk rest ih =>
      rw [List.flatMap_cons, read_append, read_chunk, ih, List.flatMap_cons, List.append_assoc]

/-- **A well-formed body is read as its data**, and what follows it is left over. -/
theorem read_encode (body : ChunkedBody) (rest : List Octet) :
    ({} : Decoder).read (body.encode ++ rest) =
      { phase := .complete, delivered := body.data, leftover := rest } := by
  have start : ({} : Decoder) = between [] := rfl
  have zero : ∀ c ∈ body.zeros, isHex c = true := fun c inside => by
    rw [body.allZero c inside]; decide
  rw [ChunkedBody.encode, read_append, read_append, read_append, read_append, start, read_chunks,
    read_sizeLine rfl body.some zero body.line body.apart]
  simp only [between, foldl_withDigit_zeros body.allZero, if_true]
  rw [read_trailerLines rfl body.nonblank]
  have ended : ∀ d : Decoder, d.phase = .trailer .start →
      d.read [CR, LF] = { d with phase := .complete } := fun d h => by
    simp [step, h, stepTrailer]
  rw [ended _ rfl, read_complete rfl]
  simp [ChunkedBody.data]

end Decoder

end Everscale
