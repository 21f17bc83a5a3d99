/-
# Everscale.Http1.UnsentOctets -- what a formatter leaves of what the send buffer holds

A formatter writes behind the octets that have not been sent.  When an element does not fit, or is
malformed, it goes back to the write mark: what is in front of the mark stays, whatever a call comes to
(`Spares`).  The mark is behind all that was formatted, except after a flush, which puts it at the
start of the buffer.

`HeadCall.Harmless` says when a call of `formatHeaders` can do no harm then, and
`HeadCall.Harmless.keeps` that such a call leaves all that was in the buffer; the calls that format a body
always do.
-/
import Everscale.Http1.HeadElements
import Everscale.Http1.Sockets

namespace Everscale

set_option autoImplicit false

open Theory HttpUtil

/-! ## Positions inside the storage -/

/-- The octets that have not been sent begin at the front of the storage, and the mark is among them. -/
structure Buffer.Inside (b : Buffer) : Prop where
  start : b.readPosition = 0
  mark_le : b.writeMarkPosition ≤ b.writePosition
  write_le : b.writePosition ≤ b.capacity

namespace Buffer.Inside

variable {b : Buffer}

theorem create (capacity : Nat) : (Buffer.create capacity).Inside :=
  ⟨rfl, Nat.le_refl _, Nat.zero_le _⟩

theorem unread_eq (h : b.Inside) : b.unread = b.storage.take b.writePosition := by
  rw [Buffer.unread, h.start, List.drop_zero]
  rfl

theorem unread_length (h : b.Inside) : b.unread.length = b.writePosition := by
  have write_le := h.write_le
  simp only [Buffer.capacity] at write_le
  rw [h.unread_eq, List.length_take, Nat.min_eq_left write_le]

theorem readable_eq (h : b.Inside) : b.readable = b.writePosition := by
  rw [Buffer.readable, h.start, Nat.sub_zero]

theorem unread_eq_nil (h : b.Inside) : b.unread = [] ↔ b.isReadable = false := by
  rw [← List.length_eq_zero_iff, h.unread_length, Buffer.isReadable, h.readable_eq]
  simp only [decide_eq_false_iff_not]
  omega

/-- What a writer is told of such a buffer. -/
theorem holds (h : b.Inside) (small : b.capacity < 2 ^ 32) : Holds b b.unread b.writeMarkPosition where
  wf := ⟨h.start ▸ Nat.zero_le _, h.write_le, small⟩
  start := h.start
  written := by rw [Buffer.unread, h.start, List.drop_zero]
  mark_eq := rfl
  mark_le := h.unread_length ▸ h.mark_le

theorem putNext (h : b.Inside) (c : Octet) : (b.putNext c).Inside ∧
    (b.putNext c).writeMarkPosition = b.writeMarkPosition ∧ b.unread <+: (b.putNext c).unread := by
  have mark_le := h.mark_le
  unfold Buffer.putNext
  split
  · rename_i room
    have inside := (Buffer.isWritable_iff_lt b).1 room
    have after : ({ b with
        storage := b.storage.set b.writePosition c
        writePosition := b.writePosition + 1 } : Buffer).Inside := by
      refine ⟨h.start, Nat.le_succ_of_le mark_le, ?_⟩
      simpa [Buffer.capacity] using inside
    refine ⟨after, rfl, ?_⟩
    rw [h.unread_eq, after.unread_eq]
    show b.storage.take b.writePosition <+: (b.storage.set b.writePosition c).take (b.writePosition + 1)
    rw [← List.take_set_of_le (Nat.le_refl b.writePosition) (a := c)]
    exact List.take_prefix_take_left (Nat.le_succ _)
  · exact ⟨h, rfl, List.prefix_rfl⟩

theorem putAll (h : b.Inside) (text : List Octet) : (Writer.putAll b text).Inside ∧
    (Writer.putAll b text).writeMarkPosition = b.writeMarkPosition ∧
    b.unread <+: (Writer.putAll b text).unread := by
  induction text generalizing b with
  | nil => exact ⟨h, rfl, List.prefix_rfl⟩
  | cons c rest ih =>
      obtain ⟨inside, mark, extends'⟩ := h.putNext c
      obtain ⟨all, marks, more⟩ := ih inside
      exact ⟨all, marks.trans mark, extends'.trans more⟩

theorem writeMark (h : b.Inside) : b.writeMark.Inside := ⟨h.start, Nat.le_refl _, h.write_le⟩

theorem writeReset (h : b.Inside) : b.writeReset.Inside ∧
    b.writeReset.unread = b.unread.take b.writeMarkPosition := by
  have after : b.writeReset.Inside := ⟨h.start, Nat.le_refl _, h.mark_le.trans h.write_le⟩
  refine ⟨after, ?_⟩
  rw [after.unread_eq, h.unread_eq, List.take_take, Nat.min_eq_left h.mark_le]
  rfl

/-- Behind its mark the buffer holds nothing. -/
theorem take_mark (h : b.Inside) (behind : b.writeMarkPosition = b.writePosition) :
    b.unread.take b.writeMarkPosition = b.unread := by
  rw [behind, ← h.unread_length, List.take_length]

/-- What an application puts at the write position is behind it when the position is moved. -/
theorem setWritePosition_fill (h : b.Inside) (produced : List Octet) (count : Nat) :
    ({ b.fill produced with writePosition := b.writePosition }.setWritePosition
      (b.writePosition + count)).Inside ∧
    b.unread <+: ({ b.fill produced with writePosition := b.writePosition }.setWritePosition
      (b.writePosition + count)).unread := by
  have write_le := h.write_le
  have mark_le := h.mark_le
  simp only [Buffer.capacity] at write_le
  generalize same : ({ b.fill produced with writePosition := b.writePosition }.setWritePosition
    (b.writePosition + count)) = b'
  have storage : b'.storage = b.storage.take b.writePosition ++
      (produced ++ b.storage.drop (b.writePosition + produced.length)) := by
    rw [← same, ← List.append_assoc]
    rfl
  have longer : b.writePosition ≤ b'.storage.length := by
    rw [storage, List.length_append, List.length_take]
    omega
  have position : b.writePosition ≤ b'.writePosition ∧ b'.writePosition ≤ b'.storage.length := by
    have moved : b'.writePosition =
        if b'.storage.length < b.writePosition + count then b'.storage.length
        else b.writePosition + count := by
      rw [← same]
      rfl
    rw [moved]
    split <;> omega
  have inside : b'.Inside := by
    refine ⟨?_, ?_, position.2⟩
    · rw [← same]
      exact h.start
    · rw [show b'.writeMarkPosition = b.writeMarkPosition by rw [← same]; rfl]
      exact mark_le.trans position.1
  refine ⟨inside, ?_⟩
  have front : b'.storage.take b.writePosition = b.storage.take b.writePosition := by
    rw [storage]
    exact List.take_left' (by rw [List.length_take, Nat.min_eq_left write_le])
  rw [h.unread_eq, inside.unread_eq, ← front]
  exact List.take_prefix_take_left position.1

/-- What has been sent is gone, and nothing else. -/
theorem send (h : b.Inside) {count : Nat} (within : count ≤ b.readable) :
    (b.send count).Inside ∧ (b.send count).unread = b.unread.drop count := by
  have write_le := h.write_le
  have start := h.start
  rw [h.readable_eq] at within
  simp only [Buffer.capacity] at write_le
  unfold Buffer.send
  split
  · rename_i none
    subst none
    exact ⟨h, rfl⟩
  · rename_i some
    have position : (b.setReadPosition (b.readPosition + count)).readPosition = count := by
      simp only [Buffer.setReadPosition, Buffer.capacity, start, Nat.zero_add]
      rw [if_neg (by omega)]
    have compacted : (b.setReadPosition (b.readPosition + count)).compact.2 =
        { storage := Buffer.moveToFront b.storage count (b.writePosition - count)
          readMarkPosition := 0
          writeMarkPosition := 0
          readPosition := 0
          writePosition := b.writePosition - count } := by
      rw [Buffer.compact, position, if_neg some]
      rfl
    rw [compacted]
    have length : (Buffer.moveToFront b.storage count (b.writePosition - count)).length =
        b.storage.length := by
      simp only [Buffer.moveToFront, List.length_append, List.length_take, List.length_drop]
      omega
    have inside : (⟨Buffer.moveToFront b.storage count (b.writePosition - count), 0, 0, 0,
        b.writePosition - count⟩ : Buffer).Inside := by
      refine ⟨rfl, Nat.zero_le _, ?_⟩
      show b.writePosition - count ≤ (Buffer.moveToFront _ _ _).length
      omega
    refine ⟨inside, ?_⟩
    rw [inside.unread_eq, h.unread_eq, List.drop_take]
    show (Buffer.moveToFront b.storage count (b.writePosition - count)).take (b.writePosition - count) = _
    rw [Buffer.moveToFront, List.take_append_of_le_length (by simp; omega), List.take_take, Nat.min_self]

end Buffer.Inside

/-! ## Writers -/

/-- Whatever a writer comes to, it leaves what is in front of the mark, and the mark. -/
structure Writer.Kept (b b' : Buffer) : Prop where
  inside : b'.Inside
  mark_eq : b'.writeMarkPosition = b.writeMarkPosition
  marked : b.unread.take b.writeMarkPosition <+: b'.unread

def Writer.Spares (w : Writer) : Prop := ∀ b : Buffer, b.Inside → Writer.Kept b (w b).2

namespace Writer

theorem Kept.refl {b : Buffer} (h : b.Inside) : Kept b b := ⟨h, rfl, List.take_prefix _ _⟩

theorem Kept.trans {b b' b'' : Buffer} (h : Kept b b') (h' : Kept b' b'') : Kept b b'' := by
  refine ⟨h'.inside, h'.mark_eq.trans h.mark_eq, ?_⟩
  have shorter : (b.unread.take b.writeMarkPosition).length ≤ b.writeMarkPosition := List.length_take_le _ _
  have front : b.unread.take b.writeMarkPosition <+: b'.unread.take b'.writeMarkPosition := by
    rw [h.mark_eq]
    exact List.prefix_take_iff.2 ⟨h.marked, shorter⟩
  exact front.trans h'.marked

/-- Writing more takes nothing away. -/
theorem Kept.extended {b b' : Buffer} (inside : b'.Inside)
    (mark_eq : b'.writeMarkPosition = b.writeMarkPosition) (more : b.unread <+: b'.unread) : Kept b b' :=
  ⟨inside, mark_eq, (List.take_prefix _ _).trans more⟩

theorem Kept.reset {b : Buffer} (h : b.Inside) : Kept b b.writeReset := by
  obtain ⟨inside, unread⟩ := h.writeReset
  refine ⟨inside, rfl, ?_⟩
  rw [unread]

theorem Kept.putAll {b : Buffer} (h : b.Inside) (text : List Octet) : Kept b (Writer.putAll b text) := by
  obtain ⟨inside, mark, more⟩ := h.putAll text
  exact .extended inside mark more

namespace Spares

theorem code (e : Error) : Spares fun b => (e, b) := fun _ inside => .refl inside

theorem rollback (e : Error) : Spares (Rollback e) := fun _ inside => .reset inside

theorem room (n : Nat) : Spares (Writer.room n) := by
  intro b inside
  unfold Writer.room
  split
  · exact .reset inside
  · exact .refl inside

theorem literal (text : List Octet) : Spares (Writer.literal text) := by
  intro b inside
  unfold Writer.literal
  split
  · exact .reset inside
  · exact .putAll inside text

theorem andThen {f g : Writer} (hf : f.Spares) (hg : g.Spares) : (Writer.andThen f g).Spares := by
  intro b inside
  have first := hf b inside
  unfold Writer.andThen
  split
  · rename_i b' written
    rw [written] at first
    exact first.trans (hg b' first.inside)
  · rename_i written
    rw [written] at first
    exact first

theorem orRollback {f : Writer} (hf : f.Spares) : (Writer.orRollback f).Spares := by
  intro b inside
  have first := hf b inside
  unfold Writer.orRollback
  split
  · rename_i written
    rw [written] at first
    exact first
  · rename_i written
    rw [written] at first
    exact first.trans (.reset first.inside)

theorem each {τ : Type} (emit : τ → Octet → Except Error (List Octet × τ)) (t : τ)
    (text : List Octet) : (Writer.each emit t text).Spares := by
  intro b inside
  induction text generalizing t b with
  | nil => exact .refl inside
  | cons c rest ih =>
      unfold Writer.each
      split
      · exact .reset inside
      · split
        · exact .reset inside
        · split
          · exact .reset inside
          · rename_i written _ _ _
            have put := Kept.putAll inside written
            exact put.trans (ih _ _ put.inside)

theorem formatInteger (integer radix : Nat) : (HttpUtil.FormatInteger integer radix : Writer).Spares := by
  intro b inside
  unfold HttpUtil.FormatInteger
  split
  · exact .refl inside
  · split
    · split
      · exact .putAll inside [octet '0']
      · exact .refl inside
    · generalize HttpUtil.magnitudeLoop radix 32 (HttpUtil.int32 integer) 1 0 = power
      obtain ⟨magnitude, length⟩ := power
      dsimp only
      split
      · exact .refl inside
      · exact .putAll inside _

end Spares

end Writer

/-! ## Formatters -/

/-- A call of a formatter leaves what is in front of the mark. -/
def Spares {σ : Type} (call : Buffer → Formatted σ) : Prop :=
  ∀ b : Buffer, b.Inside → (call b).output.Inside ∧ b.unread.take b.writeMarkPosition <+: (call b).output.unread

/-- The element is well formed, and there is room for it behind what the buffer holds. -/
def Buffer.Takes (b : Buffer) (slot : Element) : Prop :=
  match slot.text with
  | .ok text => b.unread.length + text.length ≤ b.capacity
  | .error _ => False

/-- A call that goes on with this element leaves all that the buffer holds, if the element sets the mark
before it begins or there is room for it. -/
def GoesOn {σ : Type} (slot : Element) (call : Buffer → Formatted σ) : Prop :=
  ∀ b : Buffer, b.Inside → slot.fresh = true ∨ b.capacity < 2 ^ 32 ∧ b.Takes slot →
    b.unread <+: (call b).output.unread

namespace Spares

variable {σ τ : Type}

/-- Where the mark is behind all that the buffer holds, a call leaves it all. -/
theorem whole {call : Buffer → Formatted σ} (h : Spares call) {b : Buffer} (inside : b.Inside)
    (behind : b.writeMarkPosition = b.writePosition) : b.unread <+: (call b).output.unread := by
  have marked := (h b inside).2
  rwa [inside.take_mark behind] at marked

/-- A call that sets the mark first. -/
theorem marking {call : Buffer → Formatted σ} (h : Spares call) {b : Buffer} (inside : b.Inside) :
    (call b.writeMark).output.Inside ∧ b.unread <+: (call b.writeMark).output.unread :=
  ⟨(h _ inside.writeMark).1, h.whole inside.writeMark rfl⟩

theorem unchanged (e : Error) (s : σ) : Spares fun b => (⟨e, s, b⟩ : Formatted σ) :=
  fun _ inside => ⟨inside, List.take_prefix _ _⟩

theorem complete (s : σ) : Spares (Formatter.complete s) := unchanged _ _

theorem element {w : Writer} {next : σ} {rest : Formatter σ} (s : σ) (hw : w.Spares)
    (hrest : Spares (rest next)) : Spares (Formatter.element w next rest s) := by
  intro b inside
  have written := hw b inside
  unfold Formatter.element
  split
  · rename_i output
    rw [output] at written
    obtain ⟨after, more⟩ := hrest.marking written.inside
    exact ⟨after, written.marked.trans more⟩
  · rename_i output
    rw [output] at written
    exact ⟨written.inside, written.marked⟩

theorem part {f : Formatter σ} {get : τ → σ} {set : τ → σ → τ} {advance : τ → τ}
    {rest : Formatter τ} (t : τ) (hf : Spares (f (get t)))
    (hrest : ∀ t, Spares (rest t)) : Spares (Formatter.part f get set advance rest t) := by
  intro b inside
  obtain ⟨first, marked⟩ := hf b inside
  unfold Formatter.part
  dsimp only
  split
  · obtain ⟨after, more⟩ := (hrest (advance (set t (f (get t) b).state))).marking first
    exact ⟨after, marked.trans more⟩
  · exact ⟨first, marked⟩

/-- A formatter that begins leaves all that the buffer holds. -/
theorem start_whole {f : Formatter σ} {first : σ} (s : σ) (hf : Spares (f first)) {b : Buffer}
    (inside : b.Inside) : (Formatter.start f first s b).output.Inside ∧
      b.unread <+: (Formatter.start f first s b).output.unread := by
  unfold Formatter.start
  split
  · exact ⟨inside, List.prefix_rfl⟩
  · exact hf.marking inside

theorem start {f : Formatter σ} {first : σ} (s : σ) (hf : Spares (f first)) :
    Spares (Formatter.start f first s) := by
  intro b inside
  obtain ⟨after, more⟩ := start_whole s hf inside
  exact ⟨after, (List.take_prefix _ _).trans more⟩

end Spares

namespace GoesOn

variable {σ τ : Type} {slot : Element}

theorem element {w : Writer} {next : σ} {rest : Formatter σ} (s : σ) {text : Except Error (List Octet)}
    (renders : Renders w text) (hrest : Spares (rest next)) :
    GoesOn ⟨false, text⟩ (Formatter.element w next rest s) := by
  intro b inside can
  obtain ⟨small, fits⟩ := can.resolve_left Bool.false_ne_true
  cases text with
  | error e => exact fits.elim
  | ok text =>
      have written : Writes w text := renders
      obtain ⟨code, holds, -⟩ := (written b _ _ (inside.holds small)).1 fits
      have ran : w b = (.success, (w b).2) := Prod.ext code rfl
      have after : (w b).2.Inside :=
        ⟨holds.start, holds.mark_eq ▸ holds.writePosition ▸ holds.mark_le, holds.wf.write_le⟩
      have more : b.unread <+: (w b).2.unread := by
        rw [holds.unread]
        exact List.prefix_append _ _
      unfold Formatter.element
      rw [ran]
      exact more.trans (hrest.marking after).2

theorem part {f : Formatter σ} {get : τ → σ} {set : τ → σ → τ} {advance : τ → τ}
    {rest : Formatter τ} (t : τ) (hf : GoesOn slot (f (get t))) (spares : Spares (f (get t)))
    (hrest : ∀ t, Spares (rest t)) : GoesOn slot (Formatter.part f get set advance rest t) := by
  intro b inside can
  have first := hf b inside can
  have kept := (spares b inside).1
  unfold Formatter.part
  dsimp only
  split
  · exact first.trans ((hrest (advance (set t (f (get t) b).state))).marking kept).2
  · exact first

theorem start {f : Formatter σ} {first : σ} (s : σ) (hf : Spares (f first)) :
    GoesOn slot (Formatter.start f first s) :=
  fun _ inside _ => (Spares.start_whole s hf inside).2

end GoesOn

/-! ## Heads -/

section heads

open Writer.Spares

theorem formatVersion_spares (httpVersion : Nat) (clientMode : Bool) :
    (HttpMessageFormatter.formatVersion httpVersion clientMode).Spares := by
  have version : Writer.Spares
      (if httpVersion = 110 then .each HttpUtil.emitRaw () (octets "HTTP/1.1")
        else if httpVersion = 100 then .each HttpUtil.emitRaw () (octets "HTTP/1.0")
        else .Rollback .badRequestVersion) := by
    split
    · exact each _ _ _
    · split
      · exact each _ _ _
      · exact rollback _
  unfold HttpMessageFormatter.formatVersion
  dsimp only
  split
  · exact andThen (literal _) (andThen version (literal _))
  · exact andThen version (literal _)

theorem formatFieldValue_spares (fieldValue : Option (List Octet)) :
    (HttpMessageFormatter.formatFieldValue fieldValue).Spares := by
  cases fieldValue with
  | none => exact code _
  | some fieldValue => exact andThen (each _ _ _) (literal _)

section messages

variable {χ ρ : Type}

theorem formatNames_spares (headers : List HttpHeader) (s : HttpMessageFormatter χ) :
    Spares (HttpMessageFormatter.formatNames headers s) := by
  induction headers generalizing s with
  | nil => exact .element s (literal _) (.complete _)
  | cons header rest ih =>
      exact .element s (andThen (each _ _ _) (literal _)) (.element _ (formatFieldValue_spares _) (ih _))

theorem formatHeaders_spares {formatStartLine : Formatter χ} (message : HttpMessage ρ)
    (line : ∀ s, Spares (formatStartLine s)) (s : HttpMessageFormatter χ) :
    Spares (HttpMessageFormatter.formatHeaders formatStartLine message s) := by
  have whole : ∀ s, Spares (HttpMessageFormatter.fromStartLine formatStartLine message s) :=
    fun s => .part s (line _) fun _ => formatNames_spares _ _
  unfold HttpMessageFormatter.formatHeaders
  split
  · exact .unchanged _ _
  · exact .start s (whole _)
  · exact whole s
  · exact formatNames_spares _ _
  · split
    · exact .element s (formatFieldValue_spares _) (formatNames_spares _ _)
    · exact .unchanged _ _

/-- The element that a formatter of headers goes on with. -/
theorem formatHeaders_goesOn {formatStartLine : Formatter χ} (message : HttpMessage ρ)
    (line : HttpMessageFormatter.StartLineElements formatStartLine)
    (spares : ∀ s, Spares (formatStartLine s))
    (goesOn : ∀ s slot rest, line.begun s = some (slot :: rest) → GoesOn slot (formatStartLine s))
    (s : HttpMessageFormatter χ) {slot : Element} {rest : List Element}
    (left : HttpMessageFormatter.elements line message s = some (slot :: rest)) :
    GoesOn slot (HttpMessageFormatter.formatHeaders formatStartLine message s) := by
  have whole : ∀ s, Spares (HttpMessageFormatter.fromStartLine formatStartLine message s) :=
    fun s => .part s (spares _) fun _ => formatNames_spares _ _
  unfold HttpMessageFormatter.elements at left
  unfold HttpMessageFormatter.formatHeaders
  cases stage : s.stage with
  | headerFormatComplete =>
      rw [stage] at left
      cases left
  | initial => exact .start s (whole _)
  | startLine =>
      simp only [stage, Option.map_eq_some_iff] at left
      obtain ⟨slots, begun, same⟩ := left
      obtain ⟨first, later, rfl⟩ := List.exists_cons_of_ne_nil (line.emits s.sub slots begun).1
      cases same
      exact .part s (goesOn _ _ _ begun) (spares _) fun _ => formatNames_spares _ _
  | fieldName =>
      simp only [stage, Option.some.injEq] at left
      cases headers : s.currentHeader with
      | nil =>
          rw [headers] at left
          cases left
          exact .element s (Writer.renders_literal _) (.complete _)
      | cons header later =>
          rw [headers] at left
          cases left
          exact .element s (HttpMessageFormatter.formatFieldName_renders _)
            (.element _ (formatFieldValue_spares _) (formatNames_spares _ _))
  | fieldValue =>
      simp only [stage] at left
      cases headers : s.currentHeader with
      | nil =>
          rw [headers] at left
          cases left
      | cons header later =>
          rw [headers] at left
          cases left
          exact .element s (HttpMessageFormatter.formatFieldValue_renders _) (formatNames_spares _ _)

end messages

section responses

open HttpResponseFormatter

variable (response : HttpResponse)

theorem formatReasonPhrase_spares : (formatReasonPhrase response).Spares := by
  unfold formatReasonPhrase
  split
  · exact rollback _
  · exact andThen (each _ _ _) (literal _)

theorem formatStatusCode_spares : (formatStatusCode response).Spares := by
  unfold formatStatusCode
  dsimp only
  split
  · exact rollback _
  · exact andThen (room _) (andThen (orRollback (formatInteger _ _)) (literal _))

theorem statusLine_spares (s : ResponseFormatStage) : Spares (formatStartLine response s) := by
  have reasonPhrase : ∀ s, Spares (fromReasonPhrase response s) :=
    fun s => .element s (formatReasonPhrase_spares response) (.complete _)
  have statusCode : ∀ s, Spares (fromStatusCode response s) :=
    fun s => .element s (formatStatusCode_spares response) (reasonPhrase _)
  have version : ∀ s, Spares (fromVersion response s) :=
    fun s => .element s (formatVersion_spares _ _) (statusCode _)
  cases s with
  | initial =>
      intro b inside
      obtain ⟨after, more⟩ := (version .version).marking inside
      exact ⟨after, (List.take_prefix _ _).trans more⟩
  | version => exact version _
  | statusCode => exact statusCode _
  | reasonPhrase => exact reasonPhrase _
  | formatComplete => exact .unchanged _ _

theorem statusLine_goesOn (s : ResponseFormatStage) (slot : Element) (rest : List Element)
    (begun : (lineElements response).begun s = some (slot :: rest)) :
    GoesOn slot (formatStartLine response s) := by
  have spares := statusLine_spares response
  cases s with
  | initial | formatComplete => cases begun
  | version =>
      cases begun
      exact .element _ (HttpMessageFormatter.formatVersion_renders _ _) (spares .statusCode)
  | statusCode =>
      cases begun
      exact .element _ (formatStatusCode_renders response) (spares .reasonPhrase)
  | reasonPhrase =>
      cases begun
      exact .element _ (formatReasonPhrase_renders response) (.complete _)

end responses

section uris

open HttpRequestUriFormatter

variable (uri : HttpRequestUri)

theorem formatScheme_spares : (formatScheme uri).Spares := by
  unfold formatScheme
  split
  · exact code _
  · exact each _ _ _
  · exact each _ _ _
  · exact code _

theorem formatHost_spares : (formatHost uri).Spares := by
  unfold formatHost
  split
  · exact each _ _ _
  · exact code _

theorem formatPort_spares : (formatPort uri).Spares := by
  unfold formatPort
  split
  · exact code _
  · split
    · exact code _
    · exact andThen (literal _) (orRollback (formatInteger _ _))

theorem formatAbsPath_spares : (formatAbsPath uri).Spares := by
  unfold formatAbsPath
  dsimp only
  split
  · exact each _ _ _
  · exact andThen (literal _) (each _ _ _)

theorem formatUric_spares (introducer : Octet) (component : Option (List Octet)) :
    (formatUric introducer component).Spares := by
  unfold formatUric
  split
  · exact code _
  · exact andThen (literal _) (each _ _ _)

theorem formatNonHttpUri_spares : (formatNonHttpUri uri).Spares := by
  unfold formatNonHttpUri
  split
  · exact code _
  · split
    · exact rollback _
    · exact each _ _ _

theorem formatFrom_spares (s : UriFormatStage) : Spares (formatFrom uri s) := by
  have fragment : ∀ s, Spares (fromFragment uri s) := fun s => .element s (formatUric_spares _ _) (.complete _)
  have query : ∀ s, Spares (fromQuery uri s) := fun s => .element s (formatUric_spares _ _) (fragment _)
  have absPath : ∀ s, Spares (fromAbsPath uri s) := fun s => .element s (formatAbsPath_spares uri) (query _)
  have port : ∀ s, Spares (fromPort uri s) := fun s => .element s (formatPort_spares uri) (absPath _)
  have host : ∀ s, Spares (fromHost uri s) := fun s => .element s (formatHost_spares uri) (port _)
  have back : ∀ s, Spares fun b => (⟨.invalidState, s, b.writeReset⟩ : Formatted UriFormatStage) := by
    intro s b inside
    obtain ⟨after, unread⟩ := inside.writeReset
    exact ⟨after, by rw [unread]⟩
  cases s with
  | asterisk => exact .element _ (literal _) (.complete _)
  | nonHttpUri => exact .element _ (formatNonHttpUri_spares uri) (.complete _)
  | scheme => exact .element _ (formatScheme_spares uri) (host _)
  | host => exact host _
  | port => exact port _
  | absPath => exact absPath _
  | query => exact query _
  | fragment => exact fragment _
  | initial => exact back _
  | formatComplete => exact back _

theorem formatUri_spares (s : UriFormatStage) : Spares (format uri s) := by
  cases s with
  | formatComplete => exact .unchanged _ _
  | initial => exact .start _ (formatFrom_spares uri _)
  | _ => exact formatFrom_spares uri _

theorem formatUri_goesOn (s : UriFormatStage) (slot : Element) (rest : List Element)
    (left : elements uri s = some (slot :: rest)) : GoesOn slot (format uri s) := by
  have spares := formatFrom_spares uri
  cases s with
  | formatComplete => cases left
  | initial => exact .start _ (spares _)
  | asterisk =>
      cases left
      exact .element _ (Writer.renders_literal _) (.complete _)
  | nonHttpUri =>
      cases left
      exact .element _ (formatNonHttpUri_renders uri) (.complete _)
  | scheme =>
      cases left
      exact .element _ (formatScheme_renders uri) (spares .host)
  | host =>
      cases left
      exact .element _ (formatHost_renders uri) (spares .port)
  | port =>
      cases left
      exact .element _ (formatPort_renders uri) (spares .absPath)
  | absPath =>
      cases left
      exact .element _ (formatAbsPath_renders uri) (spares .query)
  | query =>
      cases left
      exact .element _ (formatUric_renders _ _) (spares .fragment)
  | fragment =>
      cases left
      exact .element _ (formatUric_renders _ _) (.complete _)

end uris

section requests

open HttpRequestFormatter

variable (request : HttpRequest)

theorem formatMethod_spares : (formatMethod request).Spares := by
  unfold formatMethod
  split
  · exact code _
  · exact andThen (each _ _ _) (literal _)

theorem fromVersion_spares (s : RequestLineFormat) : Spares (fromVersion request s) :=
  .element s (formatVersion_spares _ _) (.complete _)

theorem fromUri_spares (s : RequestLineFormat) : Spares (fromUri request s) :=
  .part s (formatUri_spares _ _) (fromVersion_spares request)

theorem requestLine_spares (s : RequestLineFormat) : Spares (formatStartLine request s) := by
  have method : ∀ s, Spares (fromMethod request s) :=
    fun s => .element s (formatMethod_spares request) (fromUri_spares request _)
  unfold formatStartLine
  cases s.stage with
  | initial =>
      intro b inside
      obtain ⟨after, more⟩ := (method { s with stage := .method }).marking inside
      exact ⟨after, (List.take_prefix _ _).trans more⟩
  | method => exact method _
  | requestUri => exact fromUri_spares request _
  | httpVersion => exact fromVersion_spares request _
  | formatComplete => exact .unchanged _ _

theorem requestLine_goesOn (s : RequestLineFormat) (slot : Element) (rest : List Element)
    (left : (lineElements request).begun s = some (slot :: rest)) :
    GoesOn slot (formatStartLine request s) := by
  have left : begun request s = some (slot :: rest) := left
  unfold begun at left
  unfold formatStartLine
  cases stage : s.stage with
  | initial | formatComplete =>
      rw [stage] at left
      cases left
  | method =>
      simp only [stage, Option.map_map, Option.map_eq_some_iff] at left
      obtain ⟨uri, _, same⟩ := left
      cases same
      exact .element _ (formatMethod_renders request) (fromUri_spares request _)
  | requestUri =>
      simp only [stage, Option.map_eq_some_iff] at left
      obtain ⟨uri, elements, same⟩ := left
      have nonempty := (HttpRequestUriFormatter.format_emits request.startLine.requestUri elements).1
      obtain ⟨first, later, rfl⟩ := List.exists_cons_of_ne_nil nonempty
      cases same
      exact .part s (formatUri_goesOn _ _ _ _ elements) (formatUri_spares _ _) (fromVersion_spares request)
  | httpVersion =>
      simp only [stage, Option.some.injEq] at left
      cases left
      exact .element _ (HttpMessageFormatter.formatVersion_renders _ _) (.complete _)

end requests

/-! ### Calls that do no harm -/

/-- The buffer is empty or its mark is behind all that it holds, or the formatter is through with the
headers, or the element that it goes on with sets the mark before it begins or can be written. -/
def HeadCall.Harmless {χ ρ : Type} (plan : HttpMessage ρ → HttpMessageFormatter χ → Option (List Element))
    (call : HeadCall χ ρ) : Prop :=
  call.output.unread = [] ∨ call.output.writeMarkPosition = call.output.writePosition ∨
    call.formatter.stage = .headerFormatComplete ∨
    ∃ slots ∈ plan call.message call.formatter, ∃ slot ∈ slots.head?,
      slot.fresh = true ∨ call.output.capacity < 2 ^ 32 ∧ call.output.Takes slot

/-- A call that does no harm leaves all that was in the buffer. -/
theorem HeadCall.Harmless.keeps {χ ρ : Type} {formatStartLine : HttpMessage ρ → Formatter χ}
    (line : ∀ message, HttpMessageFormatter.StartLineElements (formatStartLine message))
    {call : HeadCall χ ρ} (harmless : call.Harmless fun message => HttpMessageFormatter.elements (line message) message)
    (inside : call.output.Inside) (spares : ∀ s, Spares (formatStartLine call.message s))
    (goesOn : ∀ s slot rest, (line call.message).begun s = some (slot :: rest) →
      GoesOn slot (formatStartLine call.message s)) :
    call.output.unread <+: (HttpMessageFormatter.formatHeaders (formatStartLine call.message) call.message
      call.formatter call.output).output.unread := by
  rcases harmless with empty | behind | complete | ⟨slots, left, slot, first, can⟩
  · rw [empty]
    exact List.nil_prefix
  · exact (formatHeaders_spares call.message spares call.formatter).whole inside behind
  · unfold HttpMessageFormatter.formatHeaders
    rw [complete]
  · obtain ⟨rest, rfl⟩ := List.head?_eq_some_iff.1 first
    exact formatHeaders_goesOn call.message (line call.message) spares goesOn call.formatter left _ inside can

theorem HeadCall.Harmless.keepsResponse {call : HeadCall ResponseFormatStage StatusLine}
    (harmless : call.Harmless HttpResponseFormatter.elements) (inside : call.output.Inside) :
    call.output.unread <+:
      (HttpResponseFormatter.formatHeaders call.message call.formatter call.output).output.unread :=
  HeadCall.Harmless.keeps HttpResponseFormatter.lineElements harmless inside
    (statusLine_spares call.message) (statusLine_goesOn call.message)

theorem HeadCall.Harmless.keepsRequest {call : HeadCall RequestLineFormat RequestLine}
    (harmless : call.Harmless HttpRequestFormatter.elements) (inside : call.output.Inside) :
    call.output.unread <+:
      (HttpRequestFormatter.formatHeaders call.message call.formatter call.output).output.unread :=
  HeadCall.Harmless.keeps HttpRequestFormatter.lineElements harmless inside
    (requestLine_spares call.message) (requestLine_goesOn call.message)

end heads

/-! ## Bodies -/

section bodies

variable {χ : Type}

/-- An `int` has at most eight hexadecimal digits. -/
theorem FormatInteger_fits (integer : Nat) {b : Buffer} (room : 8 ≤ b.writable) :
    ∃ text : List Octet, text.length ≤ 8 ∧ FormatInteger integer 16 b = (.success, Writer.putAll b text) := by
  by_cases zero : integer = 0
  · refine ⟨[octet '0'], by decide, ?_⟩
    have writable : b.isWritable = true := by
      rw [Buffer.isWritable, decide_eq_true_eq]
      omega
    rw [FormatInteger, if_neg (by decide), if_pos zero, if_pos writable]
    rfl
  · have counted : countedDigits 16 integer ≤ 8 := by
      have bound := int32_lt integer
      refine (Nat.digits_length_le_iff (by decide) _).2 ?_
      omega
    have power : (int32 ((16 : Nat) ^ countedDigits 16 integer : Int)) < ((16 : Nat) : Int) ^ (7 + 1) := by
      refine lt_trans (int32_lt _) ?_
      norm_num
    refine ⟨digitsLoop 16 integer 32 (int32 ((16 : Nat) ^ countedDigits 16 integer : Int)), ?_, ?_⟩
    · exact (digitsLoop_length (by decide) integer 32 _ _ power).trans (by decide)
    · rw [FormatInteger, if_neg (by decide), if_neg zero, magnitudeLoop_counted (by decide)]
      exact if_neg (by omega)

/-- The size of a chunk is behind what the buffer held. -/
theorem beginBlock_keeps (offeredSize : Nat) (s : HttpMessageFormatter χ) {b : Buffer} (inside : b.Inside) :
    (HttpMessageFormatter.beginBlock offeredSize s b).output.Inside ∧
      b.unread <+: (HttpMessageFormatter.beginBlock offeredSize s b).output.unread := by
  have chunk : (HttpMessageFormatter.beginChunk offeredSize b).output.Inside ∧
      b.unread <+: (HttpMessageFormatter.beginChunk offeredSize b).output.unread := by
    unfold HttpMessageFormatter.beginChunk
    split
    · exact ⟨inside, List.prefix_rfl⟩
    · rename_i room
      rw [HttpMessageFormatter.reserved] at room
      obtain ⟨text, short, wrote⟩ := FormatInteger_fits
        (min offeredSize (b.writable - HttpMessageFormatter.reserved)) (b := b) (by omega)
      have left := Writer.putAll_writable (show text.length ≤ b.writable by omega)
      have fits : ¬ (Writer.putAll b text).writable < CRLF.length := by
        rw [show CRLF.length = 2 from rfl]
        omega
      obtain ⟨first, -, more⟩ := inside.putAll text
      obtain ⟨second, -, all⟩ := first.putAll CRLF
      simp only [Writer.andThen, Writer.orRollback, wrote, Writer.literal, if_neg fits]
      exact ⟨second, more.trans all⟩
  unfold HttpMessageFormatter.beginBlock
  split
  · exact ⟨inside, List.prefix_rfl⟩
  · split
    · exact ⟨inside, List.prefix_rfl⟩
    · exact chunk
    · unfold HttpMessageFormatter.beginUnencodedBlock
      split
      · exact ⟨inside, List.prefix_rfl⟩
      · exact ⟨inside, List.prefix_rfl⟩
    · exact ⟨inside, List.prefix_rfl⟩

theorem endBlock_keeps (s : HttpMessageFormatter χ) {b : Buffer} (inside : b.Inside) :
    (HttpMessageFormatter.endBlock s b).2.Inside ∧ b.unread <+: (HttpMessageFormatter.endBlock s b).2.unread := by
  unfold HttpMessageFormatter.endBlock
  cases s.body with
  | chunked =>
      show (HttpMessageFormatter.endChunk b).2.Inside ∧ _ <+: (HttpMessageFormatter.endChunk b).2.unread
      unfold HttpMessageFormatter.endChunk
      split
      · exact ⟨inside, List.prefix_rfl⟩
      · obtain ⟨after, -, more⟩ := inside.putAll CRLF
        exact ⟨after, more⟩
  | none => exact ⟨inside, List.prefix_rfl⟩
  | unencoded => exact ⟨inside, List.prefix_rfl⟩
  | bodyFormatComplete => exact ⟨inside, List.prefix_rfl⟩

theorem endBody_keeps (s : HttpMessageFormatter χ) {b : Buffer} (inside : b.Inside) :
    (HttpMessageFormatter.endBody s b).output.Inside ∧
      b.unread <+: (HttpMessageFormatter.endBody s b).output.unread := by
  unfold HttpMessageFormatter.endBody
  split
  · exact ⟨inside, List.prefix_rfl⟩
  · split
    · exact ⟨inside, List.prefix_rfl⟩
    · generalize octets "0\r\n\r\n" = last
      obtain ⟨after, -, more⟩ := inside.putAll last
      exact ⟨after.writeMark, more⟩
  · exact ⟨inside.writeMark, List.prefix_rfl⟩
  · exact ⟨inside, List.prefix_rfl⟩

/-- A block that an application has produced, and what ends it. -/
theorem producedBlock_keeps (s : HttpMessageFormatter χ) {b : Buffer} (inside : b.Inside) (produced : List Octet)
    (count : Nat) :
    (HttpMessageFormatter.endBlock s ({ b.fill produced with writePosition := b.writePosition }.setWritePosition
      (b.writePosition + count))).2.Inside ∧
    b.unread <+: (HttpMessageFormatter.endBlock s
      ({ b.fill produced with writePosition := b.writePosition }.setWritePosition
        (b.writePosition + count))).2.unread := by
  obtain ⟨filled, more⟩ := inside.setWritePosition_fill produced count
  obtain ⟨after, all⟩ := endBlock_keeps s filled
  exact ⟨after, more.trans all⟩

end bodies

end Everscale
