/-
# Everscale.Base.WildcardMatch -- the best pattern for a host

A match walks over the patterns of a domain, those in the first array and then those in the
second, and keeps the one with the lowest result.  The walk begins where the first array begins
and is over where an octet is zero, so that it never gets to the second array when the first is
empty (`overflow_unreached`).
-/
import Everscale.Base.WildcardIndex

namespace Everscale

set_option autoImplicit false

open Theory (Key records entryMap Glob Referenced serveAll AllFit ServesAll KeepsServing)
open ReferencedMap (Answer)

/-- A position in one of the two arrays of a node. -/
inductive Iterator where
  | wildcards (p : Nat)
  | extra (q : Nat)
  deriving DecidableEq, Repr

namespace WildcardIndexNode

/-- The array that the iterator points into. -/
def buffer (node : WildcardIndexNode) : Iterator → Option SizedBuffer
  | .wildcards _ => some node.wildcards
  | .extra _ => node.extra

def offset : Iterator → Nat
  | .wildcards p => p
  | .extra q => q

/-- `*it` -/
def octet (node : WildcardIndexNode) (it : Iterator) : Option UInt8 :=
  (node.buffer it).bind fun buffer => buffer.data[offset it]?

def first : Iterator := .wildcards 0

def last (node : WildcardIndexNode) (it : Iterator) : Option Bool := (node.octet it).map (· = 0)

/-- Where the pattern lies, with what lies behind it, and its length. -/
def patternAt (node : WildcardIndexNode) (it : Iterator) : Option (List UInt8 × Nat) :=
  (node.octet it).bind fun size =>
    if size = 0 then none
    else (node.buffer it).map fun buffer => (buffer.data.drop (offset it + 1), size.toNat)

def value (node : WildcardIndexNode) (it : Iterator) : Option Pointer :=
  (node.octet it).bind fun size =>
    if size = 0 then none
    else (node.buffer it).bind fun buffer => buffer.readPointer (offset it + 1 + size.toNat)

def next (node : WildcardIndexNode) (it : Iterator) : Option (Error × Iterator) :=
  match node.octet it with
  | none => none
  | some size =>
      if size = 0 then some (.cannotFind, it)
      else
        match it with
        | .wildcards p =>
            let p := p + 1 + size.toNat + pointers.width
            match node.wildcards.data[p]? with
            | none => none
            | some following =>
                if following ≠ 0 then some (.success, .wildcards p)
                else
                  -- no more patterns here: on to the second array, if there is one
                  match node.extra with
                  | some _ => some (.success, .extra 0)
                  | none => some (.success, .wildcards p)
        | .extra q => some (.success, .extra (q + 1 + size.toNat + pointers.width))

/-- The loop of `match`, with the iterator and the result of the best match so far. -/
def matchLoop (node : WildcardIndexNode) (hostname : List UInt8) :
    Nat → Iterator → Option (Iterator × Int) → Option (Error × Option Pointer)
  | 0, _, _ => none
  | turns + 1, it, best =>
      match node.last it with
      | none => none
      | some true =>
          match best with
          | none => some (.cannotFind, none)
          | some (bestMatchIterator, _) =>
              (node.value bestMatchIterator).map fun value => (.success, some value)
      | some false =>
          (node.patternAt it).bind fun (wildcard, wildcardSize) =>
            (StringWildcardMatch wildcard wildcardSize hostname).bind fun matchValue =>
              if matchValue = 0 then (node.value it).map fun value => (.success, some value)
              else
                let better := 0 < matchValue ∧ ∀ found ∈ best, matchValue < found.2
                let best := if better then some (it, matchValue) else best
                match node.next it with
                | none => none
                | some (error, it) =>
                    if error ≠ .success then some (error, none) else node.matchLoop hostname turns it best

/-- With as many turns as the arrays have octets, and more. -/
def matchAll (node : WildcardIndexNode) (hostname : List UInt8) : Option (Error × Option Pointer) :=
  node.matchLoop hostname (node.wildcards.capacity + (node.extra.elim 0 SizedBuffer.capacity) + 1) first none

end WildcardIndexNode

namespace WildcardIndex

/-- `match`, a word that Lean keeps for itself. -/
def matchHostname (index : WildcardIndex) (domain : Option Domain) (hostname : Option (List UInt8)) :
    Option (Error × Option Pointer × WildcardIndex) :=
  match domain, hostname with
  | some domain, some hostname =>
      if index.available = false then some (.outOfMemory, none, index)
      else
        (index.map.bucket (StringHash domain).toNat).bind fun bucket =>
          match index.map.find bucket (fun node => node.key = domain) with
          | (none, map) => some (.cannotFind, none, { index with map := map })
          | (some node, map) =>
              (node.matchAll hostname).map fun (error, value) => (error, value, { index with map := map })
  | _, _ => some (.nullPointer, none, index)

end WildcardIndex

/-! ## The walk -/

namespace WildcardIndexNode

/-- The best of these patterns for the host: its value, or nothing if none matches. -/
def Best (es : List (Key × Pointer)) (hostname : List UInt8) (error : Error) (value : Option Pointer) : Prop :=
  (∃ e ∈ es, error = .success ∧ value = some e.2 ∧ Glob star e.1 hostname ∧
    ∀ e' ∈ es, Glob star e'.1 hostname → wildcardScore e.1 hostname ≤ wildcardScore e'.1 hostname) ∨
  (error = .cannotFind ∧ value = none ∧ ∀ e ∈ es, ¬ Glob star e.1 hostname)

/-- A pattern with one star at most, one that `StringWildcardMatch` is not mistaken about for
this host, and a pointer whose highest octet is no star. -/
def Supported (hostname : List UInt8) (e : Key × Pointer) : Prop :=
  (star ∉ e.1 ∨ ∃ u v, e.1 = u ++ star :: v ∧ star ∉ u ∧ star ∉ v ∧ ¬ Misjudged u v hostname) ∧
    (e.2 >>> 56).toUInt8 ≠ star

variable {node : WildcardIndexNode} {es xs : List (Key × Pointer)} {hostname : List UInt8}

theorem judged {e : Key × Pointer} (supported : Supported hostname e) (small : hostname.length < 2 ^ 31 - 1)
    (more : List UInt8) :
    Judges (StringWildcardMatch (e.1 ++ (pointers.encode e.2 ++ more)) e.1.length hostname) e.1 hostname := by
  obtain ⟨pattern, behind⟩ := supported
  have encoded : ∃ octets, pointers.encode e.2 ++ more = (e.2 >>> 56).toUInt8 :: octets := ⟨_, rfl⟩
  obtain ⟨octets, encoded⟩ := encoded
  rw [encoded]
  rcases pattern with plain | ⟨u, v, same, front, back, right⟩
  · exact judges_literal plain behind
  · rw [same]
    exact (judges_iff front back behind small).mpr right

/-- The iterator points to the first of `rest`, or to an end if there is none. -/
inductive At (node : WildcardIndexNode) (es xs : List (Key × Pointer)) :
    Iterator → List (Key × Pointer) → List (Key × Pointer) → Prop where
  | wildcards {before after e} : es = before ++ e :: after →
      At node es xs (.wildcards (records pointers before).length) before (e :: after ++ xs)
  | extra {before after} : node.extra ≠ none → xs = before ++ after →
      At node es xs (.extra (records pointers before).length) (es ++ before) after
  | stop : node.extra = none → At node es xs (.wildcards (records pointers es).length) es []

theorem At.whole {it : Iterator} {visited rest : List (Key × Pointer)} (h : node.Holds es xs)
    (here : At node es xs it visited rest) : visited ++ rest = es ++ xs := by
  cases here with
  | wildcards split =>
      rw [split]
      simp
  | extra _ split =>
      rw [split, List.append_assoc]
  | stop none => rw [h.noExtra none]

theorem At.ended {it : Iterator} {visited : List (Key × Pointer)} (h : node.Holds es xs)
    (here : At node es xs it visited []) : node.last it = some true := by
  generalize none : ([] : List (Key × Pointer)) = rest at here
  cases here with
  | wildcards => cases none
  | @extra before _ some split =>
      subst none
      obtain ⟨buffer, extra⟩ := Option.ne_none_iff_exists'.mp some
      have stores := h.extra extra
      rw [split, List.append_nil] at stores
      rw [last, octet, WildcardIndexNode.buffer, extra, Option.bind_some, offset, stores.packs.end_at]
      rfl
  | stop =>
      rw [last, octet, WildcardIndexNode.buffer, Option.bind_some, offset, h.wildcards.packs.end_at]
      rfl

/-- What an entry looks like from its position. -/
structure Entry (buffer : SizedBuffer) (p : Nat) (e : Key × Pointer) : Prop where
  size : ∃ size, buffer.data[p]? = some size ∧ size ≠ 0 ∧ size.toNat = e.1.length
  pattern : ∃ more, buffer.data.drop (p + 1) = e.1 ++ (pointers.encode e.2 ++ more)
  value : buffer.readPointer (p + 1 + e.1.length) = some e.2

theorem entry_at {buffer : SizedBuffer} {before after : List (Key × Pointer)} {e : Key × Pointer}
    (stores : buffer.Stores (before ++ e :: after)) : Entry buffer (records pointers before).length e where
  size := by
    obtain ⟨size, here, nonzero, same, -⟩ := stores.packs.key_at
    exact ⟨size, here, nonzero, same⟩
  pattern := stores.packs.behind
  value := stores.readPointer

theorem records_length_concat (before : List (Key × Pointer)) (e : Key × Pointer) :
    (records pointers (before ++ [e])).length = (records pointers before).length + 1 + e.1.length + pointers.width := by
  rw [Theory.records_append, List.length_append, Theory.records_cons, Theory.records_nil, List.append_nil,
    Theory.length_record]
  omega

theorem At.entry {it : Iterator} {visited rest : List (Key × Pointer)} {e : Key × Pointer} (h : node.Holds es xs)
    (here : At node es xs it visited (e :: rest)) :
    ∃ buffer, node.buffer it = some buffer ∧ Entry buffer (offset it) e := by
  generalize same : e :: rest = all at here
  cases here with
  | wildcards split =>
      obtain ⟨rfl, -⟩ := List.cons.inj same
      exact ⟨node.wildcards, rfl, entry_at (split ▸ h.wildcards)⟩
  | @extra before _ some split =>
      subst same
      obtain ⟨buffer, extra⟩ := Option.ne_none_iff_exists'.mp some
      exact ⟨buffer, extra, entry_at (split ▸ h.extra extra)⟩
  | stop => cases same

theorem At.octet {it : Iterator} {visited rest : List (Key × Pointer)} {e : Key × Pointer} (h : node.Holds es xs)
    (here : At node es xs it visited (e :: rest)) :
    ∃ size, node.octet it = some size ∧ size ≠ 0 ∧ size.toNat = e.1.length := by
  obtain ⟨buffer, points, entry⟩ := here.entry h
  obtain ⟨size, sizeAt, nonzero, same⟩ := entry.size
  exact ⟨size, by rw [WildcardIndexNode.octet, points, Option.bind_some, sizeAt], nonzero, same⟩

theorem At.reads {it : Iterator} {visited rest : List (Key × Pointer)} {e : Key × Pointer} (h : node.Holds es xs)
    (here : At node es xs it visited (e :: rest)) :
    node.last it = some false ∧ node.value it = some e.2 ∧
      ∃ more, node.patternAt it = some (e.1 ++ (pointers.encode e.2 ++ more), e.1.length) := by
  obtain ⟨buffer, points, entry⟩ := here.entry h
  obtain ⟨size, octet, nonzero, same⟩ := here.octet h
  obtain ⟨more, pattern⟩ := entry.pattern
  refine ⟨?_, ?_, more, ?_⟩
  · rw [last, octet, Option.map_some, decide_eq_false nonzero]
  · rw [value, octet, Option.bind_some, if_neg nonzero, points, Option.bind_some, same, entry.value]
  · rw [patternAt, octet, Option.bind_some, if_neg nonzero, points, Option.map_some, same, pattern]

theorem At.next {it : Iterator} {visited rest : List (Key × Pointer)} {e : Key × Pointer} (h : node.Holds es xs)
    (here : At node es xs it visited (e :: rest)) :
    ∃ it', node.next it = some (.success, it') ∧ At node es xs it' (visited ++ [e]) rest := by
  obtain ⟨size, octet, nonzero, sameSize⟩ := here.octet h
  rw [WildcardIndexNode.next, octet]
  dsimp only
  rw [if_neg nonzero, sameSize]
  generalize same : e :: rest = all at here
  cases here with
  | @wildcards _ after _ split =>
      obtain ⟨rfl, rfl⟩ := List.cons.inj same
      have split' : es = visited ++ [e] ++ after := by rw [split, List.append_assoc, List.singleton_append]
      dsimp only
      rw [← records_length_concat]
      cases after with
      | nil =>
          rw [List.append_nil] at split'
          rw [← split', h.wildcards.packs.end_at]
          dsimp only
          rw [if_neg (not_not.mpr rfl)]
          cases extra : node.extra with
          | none =>
              refine ⟨_, rfl, ?_⟩
              rw [h.noExtra extra]
              exact .stop extra
          | some buffer =>
              refine ⟨_, rfl, ?_⟩
              have begins : At node es xs (.extra (records pointers []).length) (es ++ []) xs :=
                .extra (by simp [extra]) rfl
              rwa [List.append_nil] at begins
      | cons e' after =>
          obtain ⟨size', here', nonzero', -⟩ := (entry_at (split' ▸ h.wildcards)).size
          rw [here']
          dsimp only
          rw [if_pos nonzero']
          exact ⟨_, rfl, .wildcards split'⟩
  | @extra before _ some split =>
      subst same
      dsimp only
      rw [← records_length_concat, List.append_assoc]
      exact ⟨_, rfl, .extra some (by rw [split, List.append_assoc, List.singleton_append])⟩
  | stop => cases same

/-- What the loop has kept of the patterns it has passed. -/
def Kept (node : WildcardIndexNode) (visited : List (Key × Pointer)) (hostname : List UInt8) :
    Option (Iterator × Int) → Prop
  | none => ∀ e ∈ visited, ¬ Glob star e.1 hostname
  | some (it, score) => 0 < score ∧ ∃ e ∈ visited, node.value it = some e.2 ∧ Glob star e.1 hostname ∧
      score = wildcardScore e.1 hostname ∧
      ∀ e' ∈ visited, Glob star e'.1 hostname → wildcardScore e.1 hostname ≤ wildcardScore e'.1 hostname

theorem Kept.best {visited : List (Key × Pointer)} {best : Option (Iterator × Int)}
    (kept : Kept node visited hostname best) :
    ∃ error value, (match best with
        | none => some (.cannotFind, none)
        | some (it, _) => (node.value it).map fun value => (.success, some value)) = some (error, value) ∧
      Best visited hostname error value := by
  cases best with
  | none => exact ⟨.cannotFind, none, rfl, .inr ⟨rfl, rfl, kept⟩⟩
  | some best =>
      obtain ⟨-, e, member, value, glob, -, least⟩ := kept
      refine ⟨.success, some e.2, ?_, .inl ⟨e, member, rfl, rfl, glob, least⟩⟩
      dsimp only
      rw [value, Option.map_some]

/-- One more pattern, which does not match exactly. -/
theorem Kept.step {visited : List (Key × Pointer)} {best : Option (Iterator × Int)} {it : Iterator}
    {e : Key × Pointer} {k : Int} (kept : Kept node visited hostname best) (value : node.value it = some e.2)
    (sign : 0 ≤ k ↔ Glob star e.1 hostname) (score : Glob star e.1 hostname → k = wildcardScore e.1 hostname)
    (inexact : k ≠ 0) :
    Kept node (visited ++ [e]) hostname (if 0 < k ∧ ∀ found ∈ best, k < found.2 then some (it, k) else best) := by
  by_cases better : 0 < k ∧ ∀ found ∈ best, k < found.2
  · rw [if_pos better]
    have glob : Glob star e.1 hostname := sign.mp (by omega)
    refine ⟨better.1, e, by simp, value, glob, score glob, fun e' member glob' => ?_⟩
    rcases List.mem_append.mp member with member | single
    · cases best with
      | none => exact absurd glob' (kept e' member)
      | some best =>
          obtain ⟨-, e₀, -, -, -, score₀, least⟩ := kept
          have lower : k < best.2 := better.2 best rfl
          have := least e' member glob'
          have := score glob
          omega
    · rw [List.mem_singleton.mp single]
  · rw [if_neg better]
    cases best with
    | none =>
        intro e' member glob'
        rcases List.mem_append.mp member with member | single
        · exact kept e' member glob'
        · rw [List.mem_singleton.mp single] at glob'
          have := sign.mpr glob'
          exact better ⟨by omega, nofun⟩
    | some best =>
        obtain ⟨positive, e₀, member₀, value₀, glob₀, score₀, least⟩ := kept
        refine ⟨positive, e₀, List.mem_append_left _ member₀, value₀, glob₀, score₀, fun e' member glob' => ?_⟩
        rcases List.mem_append.mp member with member | single
        · exact least e' member glob'
        · rw [List.mem_singleton.mp single] at glob' ⊢
          have := sign.mpr glob'
          have := score glob'
          have : ¬ k < best.2 := fun lower => better ⟨by omega, fun found same => Option.some.inj same ▸ lower⟩
          omega

theorem matchLoop_spec (h : node.Holds es xs) (small : hostname.length < 2 ^ 31 - 1) {it : Iterator}
    {visited rest : List (Key × Pointer)} (here : At node es xs it visited rest)
    (supported : ∀ e ∈ rest, Supported hostname e) {best : Option (Iterator × Int)}
    (kept : Kept node visited hostname best) {turns : Nat} (enough : rest.length < turns) :
    ∃ error value, node.matchLoop hostname turns it best = some (error, value) ∧
      Best (visited ++ rest) hostname error value := by
  induction rest generalizing it visited best turns with
  | nil =>
      obtain ⟨turns, rfl⟩ := Nat.exists_eq_succ_of_ne_zero (Nat.pos_iff_ne_zero.mp enough)
      rw [matchLoop.eq_def]
      dsimp only
      rw [here.ended h, List.append_nil]
      exact kept.best
  | cons e rest ih =>
      obtain ⟨turns, rfl⟩ := Nat.exists_eq_succ_of_ne_zero (Nat.pos_iff_ne_zero.mp (Nat.zero_lt_of_lt enough))
      obtain ⟨notOver, value, more, pattern⟩ := here.reads h
      obtain ⟨k, result, sign, score⟩ := judged (supported e List.mem_cons_self) small more
      rw [matchLoop.eq_def]
      dsimp only
      rw [notOver]
      dsimp only
      rw [pattern, Option.bind_some]
      dsimp only
      rw [result, Option.bind_some]
      by_cases exactly : k = 0
      · rw [if_pos exactly, value, Option.map_some]
        have glob : Glob star e.1 hostname := sign.mp (by omega)
        have zero : wildcardScore e.1 hostname = 0 := by
          have := score glob
          omega
        exact ⟨.success, some e.2, rfl, .inl ⟨e, by simp, rfl, rfl, glob, fun _ _ _ => by omega⟩⟩
      · obtain ⟨it', advanced, here'⟩ := here.next h
        rw [if_neg exactly, advanced]
        dsimp only
        rw [if_neg (not_not.mpr rfl)]
        have all : visited ++ e :: rest = visited ++ [e] ++ rest := by simp
        rw [all]
        exact ih here' (fun e' member => supported e' (List.mem_cons_of_mem _ member))
          (kept.step value sign score exactly) (Nat.lt_of_succ_lt_succ enough)

theorem turns_enough (h : node.Holds es xs) :
    (es ++ xs).length < node.wildcards.capacity + (node.extra.elim 0 SizedBuffer.capacity) + 1 := by
  have inline : (records pointers es).length < node.wildcards.capacity := h.wildcards.length_lt
  have : es.length ≤ (records pointers es).length := Theory.length_le_records
  rw [List.length_append]
  cases extra : node.extra with
  | none =>
      rw [h.noExtra extra, List.length_nil]
      dsimp only [Option.elim]
      omega
  | some buffer =>
      have overflow : (records pointers xs).length < buffer.capacity := (h.extra extra).length_lt
      have : xs.length ≤ (records pointers xs).length := Theory.length_le_records
      dsimp only [Option.elim]
      omega

/-- A match that begins at an empty first array never gets to the second. -/
theorem overflow_unreached (h : node.Holds [] xs) : node.matchAll hostname = some (.cannotFind, none) := by
  have ended : node.last first = some true := by
    have ends : node.wildcards.data[0]? = some 0 := h.wildcards.packs.end_at
    rw [last, octet, first, buffer, Option.bind_some, offset, ends]
    rfl
  rw [matchAll, matchLoop, ended]

/-- A match that can begin in the first array finds the best pattern of both. -/
theorem matchAll_spec (h : node.Holds es xs) (small : hostname.length < 2 ^ 31 - 1) (begins : es = [] → xs = [])
    (supported : ∀ e ∈ es ++ xs, Supported hostname e) :
    ∃ error value, node.matchAll hostname = some (error, value) ∧ Best (es ++ xs) hostname error value := by
  have nothing : Kept node [] hostname none := nofun
  cases es with
  | cons e es =>
      have here : At node (e :: es) xs first [] (e :: es ++ xs) :=
        show At node (e :: es) xs (.wildcards (records pointers []).length) [] _ from .wildcards rfl
      exact matchLoop_spec h small here supported nothing (turns_enough h)
  | nil =>
      obtain rfl := begins rfl
      exact ⟨.cannotFind, none, overflow_unreached h, .inr ⟨rfl, rfl, nofun⟩⟩

end WildcardIndexNode

/-! ## Histories with matches -/

namespace WildcardIndex

/-- The best of the patterns that the map has for the domain, or none. -/
def BestIn (f : FiniteMap) (domain : Domain) (hostname : List UInt8) (error : Error) (value : Option Pointer) : Prop :=
  (∃ pattern v, f (domain, pattern) = some v ∧ error = .success ∧ value = some v ∧ Glob star pattern hostname ∧
    ∀ other v', f (domain, other) = some v' → Glob star other hostname →
      wildcardScore pattern hostname ≤ wildcardScore other hostname) ∨
  (error = .cannotFind ∧ value = none ∧ ∀ pattern v, f (domain, pattern) = some v → ¬ Glob star pattern hostname)

inductive HistoryCall where
  | entry (call : IndexCall)
  | matching (domain : Domain) (hostname : List UInt8)

inductive HistoryAnswer where
  | entry (answer : Answer)
  | matched (error : Error) (value : Option Pointer)
  deriving DecidableEq, Repr

def performAny (index : WildcardIndex) : HistoryCall → Option (HistoryAnswer × WildcardIndex)
  | .entry call => (index.perform call).map fun (answer, index) => (.entry answer, index)
  | .matching domain hostname =>
      (index.matchHostname (some domain) (some hostname)).map fun (error, value, index) =>
        (.matched error value, index)

/-- What the updates need (`Fits`); and for a match a host that an `int` can count, patterns that
are supported, and none of them in the second array when there is none in the first. -/
def FitsAny (index : WildcardIndex) : HistoryCall → Prop
  | .entry call => index.Fits call
  | .matching domain hostname => hostname.length < 2 ^ 31 - 1 ∧
      ∀ node es xs, index.nodeOf domain = some node → node.Holds es xs →
        (es = [] → xs = []) ∧ ∀ e ∈ es ++ xs, WildcardIndexNode.Supported hostname e

inductive ServesAny (available allocated : Bool) (t : FiniteMap × References) :
    HistoryCall → HistoryAnswer → FiniteMap × References → Prop where
  | entry {call answer t'} : serves available allocated t call answer t' →
      ServesAny available allocated t (.entry call) (.entry answer) t'
  | matched {domain hostname error value} : available = true → BestIn t.1 domain hostname error value →
      ServesAny available allocated t (.matching domain hostname) (.matched error value) t
  | unavailable {domain hostname} : available = false →
      ServesAny available allocated t (.matching domain hostname) (.matched .outOfMemory none) t

theorem bestIn_of_best {f : FiniteMap} {domain : Domain} {es : List (Key × Pointer)} (keyed : Theory.WellKeyed es)
    (agree : (fun wildcard => f (domain, wildcard)) = entryMap es) {hostname : List UInt8} {error : Error}
    {value : Option Pointer} (best : WildcardIndexNode.Best es hostname error value) :
    BestIn f domain hostname error value := by
  have stored : ∀ pattern v, f (domain, pattern) = some v ↔ (pattern, v) ∈ es := fun pattern v => by
    rw [Theory.mem_iff_entryMap keyed, ← agree]
  rcases best with ⟨e, member, success, found, glob, least⟩ | ⟨failed, nothing, none⟩
  · exact .inl ⟨e.1, e.2, (stored _ _).mpr member, success, found, glob,
      fun other v' present => least (other, v') ((stored _ _).mp present)⟩
  · exact .inr ⟨failed, nothing, fun pattern v present => none (pattern, v) ((stored _ _).mp present)⟩

theorem matchHostname_spec {index : WildcardIndex} {f : FiniteMap} (h : Holds index f) (domain : Domain)
    (hostname : List UInt8) (fits : index.FitsAny (.matching domain hostname)) (available : index.available = true) :
    ∃ error value index', index.matchHostname (some domain) (some hostname) = some (error, value, index') ∧
      BestIn f domain hostname error value ∧ Holds index' f ∧ index'.refs = index.refs ∧
      index'.available = index.available ∧ index'.map.allocated = index.map.allocated := by
  rw [matchHostname, if_neg (by simp [available]), bucket_eq h, Option.bind_some]
  rcases find_node h domain with ⟨node, rest, found, front, here, es, xs, holds, agree⟩ | ⟨found, -, agree⟩
  · obtain ⟨begins, supported⟩ := fits.2 node es xs here holds
    obtain ⟨error, value, matched, best⟩ := node.matchAll_spec holds fits.1 begins supported
    rw [found]
    dsimp only
    rw [matched, Option.map_some]
    refine ⟨error, value, _, rfl, bestIn_of_best holds.sound.keyed agree best, ?_, rfl, rfl, rfl⟩
    -- the node has come to the front, and nothing else has changed
    have moved : (node :: rest).Perm ((some node).toList ++ rest) := List.Perm.refl _
    obtain ⟨placed, lookup⟩ := h.placed.change (some node) (some node) front.perm moved front.apart
      (by simpa using front.own) (by simpa using front.own)
    have same : withDomain f domain (entryMap (es ++ xs)) = f := withDomain_self (congrFun agree)
    have reads : Reads (some node) (entryMap (es ++ xs)) := ⟨es, xs, holds, rfl⟩
    have holds' := h.change (index.map.set (place index.map.numBuckets domain) (node :: rest)) rfl rfl placed lookup
      reads (fun _ => front.allocated) (same.symm ▸ h.referenced) index.deadNodes
    rwa [same] at holds'
  · rw [found]
    refine ⟨.cannotFind, none, index, rfl, .inr ⟨rfl, rfl, fun pattern v present => ?_⟩, h, rfl, rfl, rfl⟩
    exact nomatch (congrFun agree pattern).symm.trans present

theorem keeps_serving_any (available allocated : Bool) :
    KeepsServing performAny FitsAny (ServesAny available allocated) (Is available allocated) := by
  rintro index ⟨f, _⟩ call ⟨h, rfl, rfl, rfl⟩ fits
  cases call with
  | entry call =>
      obtain ⟨answer, index', t', performed, is, served⟩ :=
        keeps_serving _ _ index (f, index.refs) call ⟨h, rfl, rfl, rfl⟩ fits
      exact ⟨.entry answer, index', t', by rw [performAny, performed]; rfl, is, .entry served⟩
  | matching domain hostname =>
      cases available : index.available with
      | true =>
          obtain ⟨error, value, index', matched, best, h', refs, available', allocated⟩ :=
            matchHostname_spec h domain hostname fits available
          refine ⟨.matched error value, index', (f, index.refs), by rw [performAny, matched]; rfl, ?_, .matched rfl best⟩
          exact ⟨h', refs, available'.trans available, allocated⟩
      | false =>
          refine ⟨.matched .outOfMemory none, index, (f, index.refs), ?_, ⟨h, rfl, available, rfl⟩, .unavailable rfl⟩
          rw [performAny, matchHostname, if_pos available]
          rfl

/-- In a history whose calls all find what they need, every match returns the value of a stored
pattern of the domain that matches the host with the lowest score, or finds none if none matches. -/
theorem matches_best (numBuckets numLocks : Nat) (buckets locks : Error) (positive : 0 < numBuckets)
    (calls : List HistoryCall) (fit : AllFit performAny FitsAny (new numBuckets numLocks buckets locks) calls) :
    ∃ answers index t, serveAll performAny (new numBuckets numLocks buckets locks) calls = some (answers, index) ∧
      ServesAll (ServesAny (new numBuckets numLocks buckets locks).available
        (decide (numBuckets ≠ 0 ∧ buckets = .success))) (fun _ => none, fun _ => 0) calls answers t := by
  have start : Is (new numBuckets numLocks buckets locks).available (decide (numBuckets ≠ 0 ∧ buckets = .success))
      (new numBuckets numLocks buckets locks) (fun _ => none, fun _ => 0) :=
    ⟨new_holds numBuckets numLocks buckets locks positive, rfl, rfl, rfl⟩
  obtain ⟨answers, index, t, performed, -, served⟩ := (keeps_serving_any _ _).run start fit
  exact ⟨answers, index, t, performed, served⟩

/-- Patterns whose part behind the star is taken apart and judged rightly. -/
def supportedSurely (hostname : List UInt8) (e : Key × Pointer) : Bool :=
  let front := e.1.takeWhile (· ≠ star)
  let back := (e.1.dropWhile (· ≠ star)).tail
  decide ((star ∉ e.1 ∨ star ∉ back ∧ ¬ Misjudged front back hostname) ∧ (e.2 >>> 56).toUInt8 ≠ star)

theorem supported_of_surely {hostname : List UInt8} {e : Key × Pointer} (surely : supportedSurely hostname e = true) :
    WildcardIndexNode.Supported hostname e := by
  obtain ⟨pattern, pointer⟩ := of_decide_eq_true surely
  refine ⟨?_, pointer⟩
  by_cases plain : star ∈ e.1
  · obtain ⟨back, judged⟩ := pattern.resolve_left (not_not.2 plain)
    obtain ⟨u, v, split, front⟩ := List.eq_append_cons_of_mem plain
    have others : ∀ c ∈ u, decide (c ≠ star) = true := by
      intro c member
      exact decide_eq_true fun same => front (same ▸ member)
    have taken : e.1.takeWhile (· ≠ star) = u := by
      rw [split, List.takeWhile_append_of_pos others]
      simp
    have dropped : e.1.dropWhile (· ≠ star) = star :: v := by
      rw [split, List.dropWhile_append_of_pos others]
      simp
    rw [dropped, List.tail_cons] at back judged
    rw [taken] at judged
    exact .inr ⟨u, v, split, front, back, judged⟩
  · exact .inl plain

/-- The patterns of the domain are read off its node. -/
def fitsAnySurely (index : WildcardIndex) : HistoryCall → Bool
  | .entry call => index.fitsSurely call
  | .matching domain hostname => decide (hostname.length < 2 ^ 31 - 1) && (index.nodeOf domain).all fun node =>
      let es := Theory.unpack pointers node.wildcards.data.length node.wildcards.data
      let xs := node.extra.elim [] fun extra => Theory.unpack pointers extra.data.length extra.data
      (!es.isEmpty || xs.isEmpty) && (es ++ xs).all (supportedSurely hostname)

theorem fitsAny_of_surely (index : WildcardIndex) (call : HistoryCall) (surely : index.fitsAnySurely call = true) :
    index.FitsAny call := by
  cases call with
  | entry call => exact fits_of_surely index call surely
  | matching domain hostname =>
      obtain ⟨small, read⟩ := Bool.and_eq_true_iff.1 surely
      refine ⟨of_decide_eq_true small, fun node es xs here holds => ?_⟩
      have first := holds.wildcards.packs.unpack_eq
      have second : (node.extra.elim [] fun extra => Theory.unpack pointers extra.data.length extra.data) = xs := by
        cases extra : node.extra with
        | none => exact (holds.noExtra extra).symm
        | some buffer => exact (holds.extra extra).packs.unpack_eq
      rw [here, Option.all_some] at read
      dsimp only at read
      rw [first, second, Bool.and_eq_true_iff, List.all_eq_true] at read
      refine ⟨fun none => ?_, fun e member => supported_of_surely (read.2 e member)⟩
      simpa [none] using read.1

/-- The patterns `*`, `f*` and `f*o` of one domain, the last of which is in the second array; hosts are
matched before and after `foo` is added. -/
def fourPatternsMatched : List HistoryCall :=
  [.entry (.entry (.insert .plenty (longDomain, [42]) 1 false)),
    .entry (.entry (.insert .plenty (longDomain, [102, 42]) 2 false)),
    .entry (.entry (.insert .plenty (longDomain, [102, 42, 111]) 3 false)),
    .matching longDomain [102, 111, 111], .matching longDomain [102, 97], .matching longDomain [98],
    .entry (.entry (.insert .plenty (longDomain, [102, 111, 111]) 4 false)), .matching longDomain [102, 111, 111],
    .entry (.entry (.remove (longDomain, [102, 42]))), .matching longDomain [102, 97]]

theorem matches_four_patterns :
    (serveAll performAny (new 2 1 .success .success) fourPatternsMatched).map Prod.fst =
      some [.entry (.returned .success), .entry (.returned .success), .entry (.returned .success),
        .matched .success (some 3), .matched .success (some 2), .matched .success (some 1),
        .entry (.returned .success), .matched .success (some 4), .entry (.returned .success),
        .matched .success (some 1)] ∧
    ∃ answers index t, serveAll performAny (new 2 1 .success .success) fourPatternsMatched = some (answers, index) ∧
      ServesAll (ServesAny (new 2 1 .success .success).available (decide (2 ≠ 0 ∧ Error.success = .success)))
        (fun _ => none, fun _ => 0) fourPatternsMatched answers t := by
  have fits : AllFit performAny FitsAny (new 2 1 .success .success) fourPatternsMatched :=
    AllFit.mono fitsAny_of_surely (by decide +kernel)
  exact ⟨by decide +kernel, matches_best 2 1 .success .success (by decide) fourPatternsMatched fits⟩

/-- The pattern is in the second array and the first has become empty: it is found under its own
name, and the match finds nothing.  And `*b` is taken to match `a`. -/
theorem stored_pattern_unmatched :
    (serveAll performAny (new 1 0 .success .success)
        [.entry (.entry (.insert .plenty (longDomain, [97]) 1 false)),
          .entry (.entry (.insert .plenty (longDomain, [98]) 2 false)),
          .entry (.entry (.insert .plenty (longDomain, [99]) 3 false)), .entry (.entry (.remove (longDomain, [97]))),
          .entry (.entry (.remove (longDomain, [98]))), .entry (.entry (.find (longDomain, [99]))),
          .matching longDomain [99]]).map (fun done => done.1.drop 5) =
      some [.entry (.found .success (some 3)), .matched .cannotFind none] ∧
    Glob star [99] [99] ∧
    (serveAll performAny (new 1 0 .success .success)
        [.entry (.entry (.insert .plenty ([120], [42, 98]) 1 false)), .matching [120] [97]]).map Prod.fst =
      some [.entry (.returned .success), .matched .success (some 1)] ∧
    ¬ Glob star [42, 98] [97] := by
  refine ⟨by decide +kernel, ?_, by decide +kernel, ?_⟩
  · exact (Theory.glob_literal (by decide)).mpr rfl
  · intro glob
    have plain : star ∉ [(98 : UInt8)] := by decide
    obtain ⟨m, ended⟩ := (Theory.glob_star_back plain).mp glob
    have last : [(97 : UInt8)].getLast? = (m ++ [98]).getLast? := congrArg List.getLast? ended
    rw [List.getLast?_concat] at last
    exact absurd last (by decide)

end WildcardIndex

end Everscale
