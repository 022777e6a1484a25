import Console816.Json.Reader
import Console816.Proofs.Json.Decimal
import Console816.Proofs.Json.Quoted

namespace Console816.Json

open Token

-- Where the scanner is after a text.
def scanned (out : ByteArray) : Option Scan := out.data.toList.foldlM Scan.step {}

-- Where the reader is after tokens, the last one first.
def readTokens (reversed : List Token) : Option Reading :=
  reversed.reverse.foldlM Reading.step (.value [])

theorem scanned_push (out : ByteArray) (byte : UInt8) :
    scanned (out.push byte) = (scanned out).bind (·.step byte) := by
  simp [scanned, ByteArray.data_push, List.foldlM_append]

theorem scanned_writeBytes (bytes : List UInt8) (out : ByteArray) :
    scanned (writeBytes bytes out) =
      (scanned out).bind fun scan => bytes.foldlM Scan.step scan := by
  induction bytes generalizing out with
  | nil => simp [writeBytes]
  | cons byte bytes ih =>
      have hcons : writeBytes (byte :: bytes) out = writeBytes bytes (out.push byte) := rfl
      rw [hcons, ih, scanned_push, Option.bind_assoc]
      rfl

theorem readTokens_cons (token : Token) (tokens : List Token) :
    readTokens (token :: tokens) = (readTokens tokens).bind (·.step token) := by
  simp [readTokens, List.foldlM_append]

-- A text leaves the scanner between two tokens, and its tokens leave the reader at `reading`.
def ReadTo (out : ByteArray) (reading : Reading) : Prop :=
  ∃ tokens, scanned out = some ⟨.between, tokens⟩ ∧ readTokens tokens = some reading

-- The same, but a bare token at the end may have to wait for the next byte.
def ReadUpTo (out : ByteArray) (reading : Reading) : Prop :=
  ReadTo out reading ∨
    ∃ literal value tokens, scanned out = some ⟨.bare literal, tokens⟩ ∧
      bare? literal.reverse = some value ∧ readTokens (atom value :: tokens) = some reading

section Bytes

variable {out : ByteArray} {reading next : Reading}

-- Punctuation ends what stands before it.
theorem ReadUpTo.push {byte : UInt8} {token : Token} (hread : ReadUpTo out reading)
    (htoken : punctuation? byte = some token) (hstep : reading.step token = some next) :
    ReadTo (out.push byte) next := by
  have hboundary : isBoundary byte = true := by simp [isBoundary, htoken]
  have hstart (tokens : List Token) : start tokens byte = ⟨.between, token :: tokens⟩ := by
    unfold punctuation? at htoken
    split at htoken <;> cases htoken <;> rfl
  have hnext {tokens : List Token} (htokens : readTokens tokens = some reading) :
      readTokens (token :: tokens) = some next := by
    rw [readTokens_cons, htokens]
    exact hstep
  rcases hread with ⟨tokens, hscan, htokens⟩ | ⟨literal, value, tokens, hscan, hvalue, htokens⟩
  · refine ⟨token :: tokens, ?_, hnext htokens⟩
    simp [scanned_push, hscan, Scan.step, hstart]
  · refine ⟨token :: atom value :: tokens, ?_, hnext htokens⟩
    simp [scanned_push, hscan, Scan.step, hboundary, hvalue, hstart]

theorem ReadTo.push {byte : UInt8} {token : Token} (hread : ReadTo out reading)
    (htoken : punctuation? byte = some token) (hstep : reading.step token = some next) :
    ReadTo (out.push byte) next :=
  ReadUpTo.push (.inl hread) htoken hstep

-- A bare token goes on as long as no boundary is met.
theorem scan_bare {literal : List UInt8} (hboundary : ∀ byte ∈ literal, isBoundary byte = false)
    (before : List UInt8) (tokens : List Token) :
    literal.foldlM Scan.step ⟨.bare before, tokens⟩ =
      some ⟨.bare (literal.reverse ++ before), tokens⟩ := by
  induction literal generalizing before with
  | nil => rfl
  | cons byte literal ih =>
      have hbyte := hboundary byte List.mem_cons_self
      have hrest := ih (fun byte hmem => hboundary byte (List.mem_cons_of_mem _ hmem))
        (byte :: before)
      simp [Scan.step, hbyte, hrest]

theorem start_bare {byte : UInt8} (hboundary : isBoundary byte = false) (tokens : List Token) :
    start tokens byte = ⟨.bare [byte], tokens⟩ := by
  simp only [isBoundary, Bool.or_eq_false_iff, Option.isSome_eq_false_iff,
    Option.isNone_iff_eq_none] at hboundary
  simp [start, hboundary]

theorem ReadTo.writeBare {literal : List UInt8} {value : Json} (hread : ReadTo out reading)
    (hboundary : ∀ byte ∈ literal, isBoundary byte = false) (hvalue : bare? literal = some value)
    (hstep : reading.step (atom value) = some next) : ReadUpTo (writeBytes literal out) next := by
  obtain ⟨tokens, hscan, htokens⟩ := hread
  cases literal with
  | nil => cases hvalue
  | cons first rest =>
      refine .inr ⟨(first :: rest).reverse, value, tokens, ?_, ?_, ?_⟩
      · have hfirst := start_bare (hboundary first List.mem_cons_self) tokens
        have hrest := scan_bare (fun byte hmem => hboundary byte (List.mem_cons_of_mem _ hmem))
          [first] tokens
        simp [scanned_writeBytes, hscan, Scan.step, hfirst, hrest]
      · rw [List.reverse_reverse]
        exact hvalue
      · rw [readTokens_cons, htokens]
        exact hstep

theorem scan_escape_byte (byte : UInt8) (before : List UInt8) (tokens : List Token) :
    (escape [byte]).foldlM Scan.step ⟨.quoted before, tokens⟩ =
      some ⟨.quoted ((escape [byte]).reverse ++ before), tokens⟩ := by
  rcases escape_cases byte with ⟨hquote, hescape⟩ | ⟨hcontrol, hescape⟩ |
    ⟨hquote, hslash, hplain, hescape⟩
  · rw [hescape]
    rcases hquote with rfl | rfl <;> rfl
  · have hn : byte.toNat < 0x20 := hcontrol
    have hhigh : isHexDigit (hexByte (byte.toNat / 16)) = true := by
      rw [isHexDigit, hexValue?_hexByte (by omega)]
      rfl
    have hlow : isHexDigit (hexByte (byte.toNat % 16)) = true := by
      rw [isHexDigit, hexValue?_hexByte (by omega)]
      rfl
    have hzero : isHexDigit 0x30 = true := by decide
    rw [hescape]
    simp [Scan.step, hhigh, hlow, hzero]
  · rw [hescape]
    simp [Scan.step, hquote, hslash, hplain]

-- What is escaped stays between its quotes.
theorem scan_escape (bytes before : List UInt8) (tokens : List Token) :
    (escape bytes).foldlM Scan.step ⟨.quoted before, tokens⟩ =
      some ⟨.quoted ((escape bytes).reverse ++ before), tokens⟩ := by
  induction bytes generalizing before with
  | nil => rfl
  | cons byte bytes ih =>
      rw [escape_cons, List.foldlM_append, scan_escape_byte]
      exact (ih _).trans (by rw [List.reverse_append, List.append_assoc])

theorem ReadTo.writeQuoted {bytes : List UInt8} (hread : ReadTo out reading)
    (hstep : reading.step (atom (.string (escape bytes))) = some next) :
    ReadTo (writeQuoted (escape bytes) out) next := by
  obtain ⟨tokens, hscan, htokens⟩ := hread
  refine ⟨atom (.string (escape bytes)) :: tokens, ?_, ?_⟩
  · have hopen : start tokens 0x22 = ⟨.quoted [], tokens⟩ := rfl
    simp [Json.writeQuoted, scanned_push, scanned_writeBytes, hscan, Scan.step, hopen, scan_escape]
  · rw [readTokens_cons, htokens]
    exact hstep

end Bytes

-- Documents whose strings are escaped and whose numbers are all integers.
inductive Writable : Json → Prop
  | null : Writable .null
  | bool (value : Bool) : Writable (.bool value)
  | integer (negative : Bool) (magnitude : Nat) : Writable (.integer negative magnitude)
  | string (bytes : List UInt8) : Writable (.string (escape bytes))
  | array {items : List Json} (hitems : ∀ item ∈ items, Writable item) : Writable (.array items)
  | object {members : List (List UInt8 × Json)}
      (hkeys : ∀ member ∈ members, ∃ bytes, member.1 = escape bytes)
      (hvalues : ∀ member ∈ members, Writable member.2) : Writable (.object members)

-- The reader takes a value next, which goes into the containers of `stack`.
def Reading.Awaits (stack : List Frame) : Reading → Prop
  | value open? => open? = stack
  | firstItem outer => .array [] :: outer = stack
  | _ => False

section Write

variable {out : ByteArray} {reading : Reading} {stack : List Frame}

theorem Reading.Awaits.step_atom (hawaits : reading.Awaits stack) (document : Json) :
    reading.step (atom document) = some (complete document stack) := by
  cases reading <;> cases hawaits <;> rfl

theorem Reading.Awaits.step_openArray (hawaits : reading.Awaits stack) :
    reading.step openArray = some (firstItem stack) := by
  cases reading <;> cases hawaits <;> rfl

theorem Reading.Awaits.step_openObject (hawaits : reading.Awaits stack) :
    reading.step openObject = some (firstKey stack) := by
  cases reading <;> cases hawaits <;> rfl

-- Writing a document where a value is awaited leaves the reader with it.
def Reads (document : Json) : Prop :=
  ∀ {out reading stack}, ReadTo out reading → reading.Awaits stack →
    ReadUpTo (write document out) (.complete document stack)

theorem reads_items {items : List Json} (hitems : ∀ item ∈ items, Reads item)
    {out : ByteArray} {done : List Json} {stack : List Frame}
    (hread : ReadUpTo out (.moreItems done stack)) :
    ReadUpTo (writeItems items out) (.moreItems (items.reverse ++ done) stack) := by
  induction items generalizing out done with
  | nil => exact hread
  | cons item items ih =>
      have hcomma : ReadTo (out.push 0x2C) (.value (.array done :: stack)) := hread.push rfl rfl
      have hitem := hitems item List.mem_cons_self hcomma rfl
      have hrest := ih (fun item hmem => hitems item (List.mem_cons_of_mem _ hmem)) hitem
      rw [List.reverse_cons, List.append_assoc]
      exact hrest

theorem reads_array {items : List Json} (hitems : ∀ item ∈ items, Reads item) :
    Reads (.array items) := by
  intro out reading stack hread hawaits
  have hopen : ReadTo (out.push 0x5B) (.firstItem stack) := hread.push rfl hawaits.step_openArray
  cases items with
  | nil => exact .inl (hopen.push rfl rfl)
  | cons item items =>
      have hitem := hitems item List.mem_cons_self hopen rfl
      have hrest := reads_items (fun item hmem => hitems item (List.mem_cons_of_mem _ hmem)) hitem
      exact .inl (hrest.push rfl (by simp [Reading.step]))

theorem reads_member {key : List UInt8} {value : Json} (hkey : ∃ bytes, key = escape bytes)
    (hvalue : Reads value) {out : ByteArray} {reading : Reading}
    {done : List (List UInt8 × Json)} {stack : List Frame} (hread : ReadTo out reading)
    (hawaits : reading.step (atom (.string key)) = some (.colon done key stack)) :
    ReadUpTo (writeMember (key, value) out) (.moreMembers ((key, value) :: done) stack) := by
  obtain ⟨bytes, rfl⟩ := hkey
  have hname := hread.writeQuoted hawaits
  have hcolon : ReadTo ((writeQuoted (escape bytes) out).push 0x3A) _ := hname.push rfl rfl
  exact hvalue hcolon rfl

theorem reads_members {members : List (List UInt8 × Json)}
    (hkeys : ∀ member ∈ members, ∃ bytes, member.1 = escape bytes)
    (hvalues : ∀ member ∈ members, Reads member.2) {out : ByteArray}
    {done : List (List UInt8 × Json)} {stack : List Frame}
    (hread : ReadUpTo out (.moreMembers done stack)) :
    ReadUpTo (writeMembers members out) (.moreMembers (members.reverse ++ done) stack) := by
  induction members generalizing out done with
  | nil => exact hread
  | cons member members ih =>
      have hcomma : ReadTo (out.push 0x2C) (.key done stack) := hread.push rfl rfl
      have hmember := reads_member (hkeys member List.mem_cons_self)
        (hvalues member List.mem_cons_self) hcomma rfl
      have hrest := ih (fun member hmem => hkeys member (List.mem_cons_of_mem _ hmem))
        (fun member hmem => hvalues member (List.mem_cons_of_mem _ hmem)) hmember
      rw [List.reverse_cons, List.append_assoc]
      exact hrest

theorem reads_object {members : List (List UInt8 × Json)}
    (hkeys : ∀ member ∈ members, ∃ bytes, member.1 = escape bytes)
    (hvalues : ∀ member ∈ members, Reads member.2) : Reads (.object members) := by
  intro out reading stack hread hawaits
  have hopen : ReadTo (out.push 0x7B) (.firstKey stack) := hread.push rfl hawaits.step_openObject
  cases members with
  | nil => exact .inl (hopen.push rfl rfl)
  | cons member members =>
      have hmember := reads_member (hkeys member List.mem_cons_self)
        (hvalues member List.mem_cons_self) hopen rfl
      have hrest := reads_members (fun member hmem => hkeys member (List.mem_cons_of_mem _ hmem))
        (fun member hmem => hvalues member (List.mem_cons_of_mem _ hmem)) hmember
      exact .inl (hrest.push rfl (by simp [Reading.step]))

theorem reads_integer (negative : Bool) (magnitude : Nat) :
    Reads (.integer negative magnitude) := by
  intro out reading stack hread hawaits
  have hwrite : write (.integer negative magnitude) out =
      writeBytes (integerText negative magnitude) out := by
    rw [write, writeDecimal_eq]
    cases negative <;> simp [writeBytes, integerText]
  rw [hwrite]
  exact hread.writeBare isBoundary_of_mem_integerText (bare?_integerText negative magnitude)
    (hawaits.step_atom _)

theorem Writable.reads {document : Json} (hwritable : document.Writable) : Reads document := by
  induction hwritable with
  | null => exact fun hread hawaits => hread.writeBare (by decide +kernel) rfl (hawaits.step_atom _)
  | bool value =>
      intro out reading stack hread hawaits
      cases value with
      | true => exact hread.writeBare (by decide +kernel) rfl (hawaits.step_atom _)
      | false => exact hread.writeBare (by decide +kernel) rfl (hawaits.step_atom _)
  | integer negative magnitude => exact reads_integer negative magnitude
  | string bytes => exact fun hread hawaits => .inl (hread.writeQuoted (hawaits.step_atom _))
  | array _ ih => exact reads_array ih
  | object hkeys _ ih => exact reads_object hkeys ih

end Write

-- A text whose end leaves the reader with a document is that document.
theorem ReadUpTo.parse? {out : ByteArray} {document : Json}
    (hread : ReadUpTo out (.done document)) : parse? out.data.toList = some document := by
  have hfinished {scan : Scan} {tokens : List Token} (hscan : scanned out = some scan)
      (hfinish : scan.finish = some tokens.reverse)
      (htokens : readTokens tokens = some (.done document)) :
      Json.parse? out.data.toList = some document := by
    have hbytes : ofBytes? out.data.toList = some tokens.reverse := by
      rw [ofBytes?, ← scanned, hscan]
      exact hfinish
    rw [Json.parse?, hbytes]
    simp only [Option.bind_eq_bind, Option.bind_some, ofTokens?]
    rw [← readTokens, htokens]
    rfl
  rcases hread with ⟨tokens, hscan, htokens⟩ | ⟨literal, value, tokens, hscan, hvalue, htokens⟩
  · exact hfinished hscan rfl htokens
  · refine hfinished hscan ?_ htokens
    simp [Scan.finish, hvalue]

-- What is written is read again.
theorem parse?_bytes {document : Json} (hwritable : document.Writable) :
    parse? document.bytes.data.toList = some document := by
  have hempty : ReadTo ByteArray.empty (.value []) := ⟨[], rfl, rfl⟩
  exact (hwritable.reads hempty rfl).parse?

end Console816.Json
