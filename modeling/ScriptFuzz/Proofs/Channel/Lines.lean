import ScriptFuzz.Host.Basic
import ScriptFuzz.Proofs.Channel.Sources
import ScriptFuzz.Proofs.Text.Utf8

/-!
# Reading lines

A line is read just if the bytes in front of the first CR or LF are at most 8190 and CR LF follows
them (`lines_exact`).

- `Source.lineText`: the longest string of bytes in front without CR and LF.
- `LineRule`: how reading a line ends, by what follows this text.
- `Source.readLineFrom_append`: what reading does with bytes of the text. The room that is left goes
  down with each of them, which is the invariant behind the limit.
- `Source.lineRule_readLine`: lines are read by the rule, from any source that ends.
- `Host.call_writeln`, `Host.call_readln`: lines that hosts write and read.
-/

namespace ScriptFuzz

open LawfulSource

namespace Source

/-- Whether a byte can stand inside a line. -/
def inLine (b : UInt8) : Bool := b != cr && b != lf

/-- The bytes in front of the first CR or LF. -/
def lineText (bytes : Bytes) : Bytes := bytes.takeWhile inLine

theorem inLine_iff {b : UInt8} : inLine b = true ↔ b ≠ cr ∧ b ≠ lf := by
  rw [inLine, Bool.and_eq_true, bne_iff_ne, bne_iff_ne]

theorem inLine_of_mem_lineText {bytes : Bytes} {b : UInt8} (h : b ∈ lineText bytes) : inLine b :=
  List.all_eq_true.1 List.all_takeWhile b h

/-- What can follow the text of a line. -/
theorem lineText_cases (bytes : Bytes) :
    bytes = lineText bytes ∨ bytes = lineText bytes ++ [cr] ∨ ∃ rest,
      bytes = lineText bytes ++ lf :: rest ∨ bytes = lineText bytes ++ cr :: lf :: rest ∨
      bytes = lineText bytes ++ cr :: cr :: rest ∨
      ∃ b, inLine b ∧ bytes = lineText bytes ++ cr :: b :: rest := by
  have hsplit : lineText bytes ++ bytes.dropWhile inLine = bytes := List.takeWhile_append_dropWhile
  cases hbehind : bytes.dropWhile inLine with
  | nil =>
    rw [hbehind, List.append_nil] at hsplit
    exact .inl hsplit.symm
  | cons b rest =>
    rw [hbehind] at hsplit
    have hend : inLine b = false := by
      have hhead := List.head?_dropWhile_not inLine bytes
      rw [hbehind] at hhead
      simpa using hhead
    refine .inr ?_
    by_cases hlf : b = lf
    · subst hlf
      exact .inr ⟨rest, .inl hsplit.symm⟩
    by_cases hcr : b = cr
    case neg =>
      rw [inLine_iff.2 ⟨hcr, hlf⟩] at hend
      cases hend
    subst hcr
    cases rest with
    | nil => exact .inl hsplit.symm
    | cons c rest =>
      refine .inr ⟨rest, .inr ?_⟩
      by_cases hfeed : c = lf
      · subst hfeed
        exact .inl hsplit.symm
      by_cases hreturn : c = cr
      · subst hreturn
        exact .inr (.inl hsplit.symm)
      · exact .inr (.inr ⟨c, inLine_iff.2 ⟨hreturn, hfeed⟩, hsplit.symm⟩)

/-! ## Byte by byte -/

section Bytes

variable {σ : Type} [Source σ] [LawfulSource σ] {s : σ} {text rest : Bytes} {b : UInt8}
  (line : Bytes) (room : Nat)

/-- A byte of the text is put to the line, and takes room. -/
theorem readLineFrom_inner (hb : inLine b) (h : unread s = b :: rest) :
    ∃ s', unread s' = rest ∧ readLineFrom line (room + 1) s = readLineFrom (b :: line) room s' := by
  obtain ⟨s', hread, hrest⟩ := readUInt_one h
  obtain ⟨hcr, hlf⟩ := inLine_iff.1 hb
  refine ⟨s', hrest, ?_⟩
  rw [readLineFrom, bind_of_ok hread]
  dsimp only
  rw [UInt8.toUInt8_toUInt64, if_neg hcr, if_neg hlf]

/-- The bytes of the text are put to the line one after the other, as long as there is room. -/
theorem readLineFrom_append (htext : ∀ b ∈ text, inLine b) (hroom : text.length ≤ room)
    (h : unread s = text ++ rest) :
    ∃ s', unread s' = rest ∧
      readLineFrom line room s = readLineFrom (text.reverse ++ line) (room - text.length) s' := by
  induction text generalizing s line room with
  | nil => exact ⟨s, h, rfl⟩
  | cons b text ih =>
    obtain ⟨hb, htext⟩ := List.forall_mem_cons.1 htext
    obtain ⟨room, rfl⟩ := Nat.exists_eq_succ_of_ne_zero (Nat.ne_of_gt (Nat.lt_of_lt_of_le
      (Nat.succ_pos text.length) hroom))
    obtain ⟨s₁, h₁, hread₁⟩ := readLineFrom_inner line room hb h
    obtain ⟨s', h', hread'⟩ := ih _ _ htext (Nat.le_of_succ_le_succ hroom) h₁
    refine ⟨s', h', ?_⟩
    rw [hread₁, hread', List.reverse_cons, List.append_assoc, List.length_cons,
      Nat.succ_sub_succ]
    rfl

/-- Behind a CR, a LF ends the line. -/
theorem readLineFrom_crlf (h : unread s = cr :: lf :: rest) :
    ∃ s', unread s' = rest ∧
      readLineFrom line (room + 1) s = .ok (Text.ofUtf8 line.reverse) s' := by
  obtain ⟨s₁, hread₁, h₁⟩ := readUInt_one h
  obtain ⟨s', hread', h'⟩ := readUInt_one h₁
  refine ⟨s', h', ?_⟩
  rw [readLineFrom, bind_of_ok hread₁]
  dsimp only
  rw [UInt8.toUInt8_toUInt64, if_pos rfl, bind_of_ok hread', UInt8.toUInt8_toUInt64, if_pos rfl]
  rfl

/-- Behind a CR, any byte but LF is a fault. -/
theorem readLineFrom_cr (hb : b ≠ lf) (h : unread s = cr :: b :: rest) :
    ∃ s', unread s' = rest ∧ readLineFrom line (room + 1) s =
      .error (.malformedLine (if b = cr then .duplicateReturn else .returnWithoutFeed)) s' := by
  obtain ⟨s₁, hread₁, h₁⟩ := readUInt_one h
  obtain ⟨s', hread', h'⟩ := readUInt_one h₁
  refine ⟨s', h', ?_⟩
  rw [readLineFrom, bind_of_ok hread₁]
  dsimp only
  rw [UInt8.toUInt8_toUInt64, if_pos rfl, bind_of_ok hread', UInt8.toUInt8_toUInt64, if_neg hb]
  split
  · rfl
  · rfl

/-- A LF without a CR is a fault. -/
theorem readLineFrom_lf (h : unread s = lf :: rest) :
    ∃ s', unread s' = rest ∧
      readLineFrom line (room + 1) s = .error (.malformedLine .feedWithoutReturn) s' := by
  obtain ⟨s', hread, hrest⟩ := readUInt_one h
  refine ⟨s', hrest, ?_⟩
  rw [readLineFrom, bind_of_ok hread]
  dsimp only
  rw [UInt8.toUInt8_toUInt64, if_neg (by decide), if_pos rfl]
  rfl

end Bytes

section Ends

variable {σ : Type} [Source σ] [EndingSource σ] {s : σ} (line : Bytes) (room : Nat)

/-- The error of a source that has nothing left when another byte is wanted. -/
def exhausted (σ : Type) [Source σ] [EndingSource σ] : ChannelError := EndingSource.shortage σ 1 0

theorem readUInt_of_nil (h : unread s = []) : ∃ s', readUInt 1 s = .error (exhausted σ) s' := by
  have hshort : (unread s).length < 1 := by simp [h]
  obtain ⟨e, s', hreceive⟩ := BoundedSource.receive_short hshort
  have he := EndingSource.eq_shortage hreceive
  rw [h] at he
  rw [he] at hreceive
  exact ⟨s', readUInt_of_error hreceive⟩

theorem readLineFrom_of_nil (h : unread s = []) :
    ∃ s', readLineFrom line (room + 1) s = .error (exhausted σ) s' := by
  obtain ⟨s', hread⟩ := readUInt_of_nil h
  exact ⟨s', bind_of_error hread⟩

theorem readLineFrom_of_cr (h : unread s = [cr]) :
    ∃ s', readLineFrom line (room + 1) s = .error (exhausted σ) s' := by
  obtain ⟨s₁, hread₁, h₁⟩ := readUInt_one h
  obtain ⟨s', hread'⟩ := readUInt_of_nil h₁
  refine ⟨s', ?_⟩
  rw [readLineFrom, bind_of_ok hread₁]
  dsimp only
  rw [UInt8.toUInt8_toUInt64, if_pos rfl]
  exact bind_of_error hread'

end Ends

/-! ## Lines -/

section Lines

variable {σ : Type} [Source σ] [LawfulSource σ] {s : σ} {text rest : Bytes} {b : UInt8}

/-- A text that is not too long leaves room for what follows it. -/
theorem readLine_eq (h : unread s = text ++ rest) (htext : ∀ b ∈ text, inLine b)
    (hlength : text.length ≤ 8190) :
    ∃ s' room, unread s' = rest ∧ readLine s = readLineFrom text.reverse (room + 1) s' := by
  have hroom : text.length ≤ maxLineLength - 1 := Nat.le_trans hlength (by decide)
  obtain ⟨s', h', hread⟩ := readLineFrom_append [] _ htext hroom h
  refine ⟨s', 8190 - text.length, h', ?_⟩
  rw [readLine, hread, List.append_nil, ← Nat.sub_add_comm hlength]
  rfl

theorem readLine_of_crlf (h : unread s = text ++ cr :: lf :: rest) (htext : ∀ b ∈ text, inLine b)
    (hlength : text.length ≤ 8190) :
    ∃ s', readLine s = .ok (Text.ofUtf8 text) s' ∧ unread s' = rest := by
  obtain ⟨s₁, room, h₁, hread₁⟩ := readLine_eq h htext hlength
  obtain ⟨s', h', hread'⟩ := readLineFrom_crlf text.reverse room h₁
  rw [List.reverse_reverse] at hread'
  exact ⟨s', hread₁.trans hread', h'⟩

theorem readLine_of_cr (hb : b ≠ lf) (h : unread s = text ++ cr :: b :: rest)
    (htext : ∀ b ∈ text, inLine b) (hlength : text.length ≤ 8190) :
    ∃ s', readLine s = .error
        (.malformedLine (if b = cr then .duplicateReturn else .returnWithoutFeed)) s' ∧
      unread s' = rest := by
  obtain ⟨s₁, room, h₁, hread₁⟩ := readLine_eq h htext hlength
  obtain ⟨s', h', hread'⟩ := readLineFrom_cr text.reverse room hb h₁
  exact ⟨s', hread₁.trans hread', h'⟩

theorem readLine_of_lf (h : unread s = text ++ lf :: rest) (htext : ∀ b ∈ text, inLine b)
    (hlength : text.length ≤ 8190) :
    ∃ s', readLine s = .error (.malformedLine .feedWithoutReturn) s' ∧ unread s' = rest := by
  obtain ⟨s₁, room, h₁, hread₁⟩ := readLine_eq h htext hlength
  obtain ⟨s', h', hread'⟩ := readLineFrom_lf text.reverse room h₁
  exact ⟨s', hread₁.trans hread', h'⟩

/-- A text that is too long uses up the room. -/
theorem readLine_of_long (hlength : 8191 ≤ (lineText (unread s)).length) :
    ∃ s', readLine s = .error (.lineTooLong 8192) s' ∧ unread s' = (unread s).drop 8191 := by
  -- the bytes that are taken are those in front of the text
  have htake : (unread s).take 8191 = (lineText (unread s)).take 8191 := by
    conv => lhs; rw [← List.takeWhile_append_dropWhile (p := inLine) (l := unread s)]
    exact List.take_append_of_le_length hlength
  have hcount : ((unread s).take 8191).length = 8191 := by
    rw [htake, List.length_take, Nat.min_eq_left hlength]
  have htext : ∀ b ∈ (unread s).take 8191, inLine b := by
    intro b hb
    rw [htake] at hb
    exact inLine_of_mem_lineText (List.mem_of_mem_take hb)
  obtain ⟨s', h', hread⟩ := readLineFrom_append [] 8191 htext
    (Nat.le_of_eq hcount) (List.take_append_drop 8191 (unread s)).symm
  rw [hcount] at hread
  exact ⟨s', hread, h'⟩

end Lines

theorem readLine_of_ended {σ : Type} [Source σ] [EndingSource σ] {s : σ} {text : Bytes}
    (h : unread s = text ∨ unread s = text ++ [cr]) (htext : ∀ b ∈ text, inLine b)
    (hlength : text.length ≤ 8190) : ∃ s', readLine s = .error (exhausted σ) s' := by
  rcases h with h | h
  · rw [← List.append_nil text] at h
    obtain ⟨s₁, room, h₁, hread₁⟩ := readLine_eq h htext hlength
    obtain ⟨s', hread'⟩ := readLineFrom_of_nil text.reverse room h₁
    exact ⟨s', hread₁.trans hread'⟩
  · obtain ⟨s₁, room, h₁, hread₁⟩ := readLine_eq h htext hlength
    obtain ⟨s', hread'⟩ := readLineFrom_of_cr text.reverse room h₁
    exact ⟨s', hread₁.trans hread'⟩

end Source

open Source

/-- How reading a line ends, by what follows its text. `bytes` are those that have not been read
before, `unread` gives those that are left, and `exhausted` is the error of a source that has none.
-/
structure LineRule {σ : Type} (unread : σ → Bytes) (exhausted : ChannelError) (bytes : Bytes)
    (result : EStateM.Result ChannelError σ String) : Prop where
  /-- A line is read just if its text has at most 8190 bytes, and CR LF follows. -/
  isOk_iff : (∃ line s', result = .ok line s') ↔
    (lineText bytes).length ≤ 8190 ∧ ∃ rest, bytes = lineText bytes ++ cr :: lf :: rest
  /-- The line is what the text spells, and no more than the text and its end is taken. -/
  ok : ∀ line s', result = .ok line s' →
    line = Text.ofUtf8 (lineText bytes) ∧ bytes = lineText bytes ++ cr :: lf :: unread s'
  /-- Of a text that is too long, 8191 bytes are taken. -/
  tooLong : 8191 ≤ (lineText bytes).length →
    ∃ s', result = .error (.lineTooLong 8192) s' ∧ unread s' = bytes.drop 8191
  feedWithoutReturn : ∀ rest, (lineText bytes).length ≤ 8190 →
    bytes = lineText bytes ++ lf :: rest →
    ∃ s', result = .error (.malformedLine .feedWithoutReturn) s' ∧ unread s' = rest
  duplicateReturn : ∀ rest, (lineText bytes).length ≤ 8190 →
    bytes = lineText bytes ++ cr :: cr :: rest →
    ∃ s', result = .error (.malformedLine .duplicateReturn) s' ∧ unread s' = rest
  returnWithoutFeed : ∀ b rest, (lineText bytes).length ≤ 8190 → inLine b →
    bytes = lineText bytes ++ cr :: b :: rest →
    ∃ s', result = .error (.malformedLine .returnWithoutFeed) s' ∧ unread s' = rest
  /-- The bytes end before the line does. -/
  ended : (lineText bytes).length ≤ 8190 → bytes = lineText bytes ∨ bytes = lineText bytes ++ [cr] →
    ∃ s', result = .error exhausted s'

namespace Source

/-- Lines are read by the rule, from any source that ends. -/
theorem lineRule_readLine {σ : Type} [Source σ] [EndingSource σ] (s : σ) :
    LineRule unread (exhausted σ) (unread s) (readLine s) := by
  have htext : ∀ b ∈ lineText (unread s), inLine b := fun b => inLine_of_mem_lineText
  have hisOk : (∃ line s', readLine s = .ok line s') ↔
      (lineText (unread s)).length ≤ 8190 ∧
        ∃ rest, unread s = lineText (unread s) ++ cr :: lf :: rest := by
    constructor
    · rintro ⟨line, s', hline⟩
      by_cases hlength : (lineText (unread s)).length ≤ 8190
      case neg =>
        obtain ⟨_, hread, -⟩ := readLine_of_long (Nat.lt_of_not_le hlength)
        cases hread.symm.trans hline
      refine ⟨hlength, ?_⟩
      rcases lineText_cases (unread s) with h | h | ⟨rest, h | h | h | ⟨b, hb, h⟩⟩
      · obtain ⟨_, hread⟩ := readLine_of_ended (.inl h) htext hlength
        cases hread.symm.trans hline
      · obtain ⟨_, hread⟩ := readLine_of_ended (.inr h) htext hlength
        cases hread.symm.trans hline
      · obtain ⟨_, hread, -⟩ := readLine_of_lf h htext hlength
        cases hread.symm.trans hline
      · exact ⟨rest, h⟩
      · obtain ⟨_, hread, -⟩ := readLine_of_cr (by decide) h htext hlength
        cases hread.symm.trans hline
      · obtain ⟨_, hread, -⟩ := readLine_of_cr (inLine_iff.1 hb).2 h htext hlength
        cases hread.symm.trans hline
    · rintro ⟨hlength, rest, h⟩
      obtain ⟨s', hread, -⟩ := readLine_of_crlf h htext hlength
      exact ⟨_, s', hread⟩
  refine ⟨hisOk, ?_, readLine_of_long, ?_, ?_, ?_, ?_⟩
  · intro line s' hline
    obtain ⟨hlength, rest, h⟩ := hisOk.1 ⟨line, s', hline⟩
    obtain ⟨s₁, hread, rfl⟩ := readLine_of_crlf h htext hlength
    cases hread.symm.trans hline
    exact ⟨rfl, h⟩
  · intro rest hlength h
    exact readLine_of_lf h htext hlength
  · intro rest hlength h
    exact readLine_of_cr (by decide) h htext hlength
  · intro b rest hlength hb h
    obtain ⟨hcr, hlf⟩ := inLine_iff.1 hb
    obtain ⟨s', hread, hrest⟩ := readLine_of_cr hlf h htext hlength
    rw [if_neg hcr] at hread
    exact ⟨s', hread, hrest⟩
  · intro hlength h
    exact readLine_of_ended h htext hlength

end Source

/-! ## Lines that hosts write and read -/

/-- The bytes of a text without CR and LF can all stand inside a line. -/
theorem inLine_of_mem_utf8 {text : String} (hcr : '\r' ∉ text.toList) (hlf : '\n' ∉ text.toList)
    {b : UInt8} (h : b ∈ Text.utf8 text) : inLine b := by
  refine inLine_iff.2 ⟨?_, ?_⟩
  · rintro rfl
    exact hcr (Text.ofNat_mem_toList h (by decide))
  · rintro rfl
    exact hlf (Text.ofNat_mem_toList h (by decide))

/-- The bytes of a line are written in two goes. -/
theorem MemoryChannel.send_line (c : MemoryChannel) (text : String) :
    (do Sink.send (Text.utf8 text); Sink.send [cr, lf] : EStateM ChannelError _ Unit) c =
      .ok () { c with sent := c.sent ++ (Text.utf8 text ++ [cr, lf]) } := by
  have happend : c.sent ++ (Text.utf8 text ++ [cr, lf]) = c.sent ++ Text.utf8 text ++ [cr, lf] :=
    Array.ext' (by simp)
  rw [happend]
  rfl

namespace Host

variable {host : Host MemoryChannel} {c : MemoryChannel}

theorem withChannel_of_ok {α : Type} {use : EStateM ChannelError MemoryChannel α} {a : α}
    {c' : MemoryChannel} (h : host.channel = some c) (huse : use c = .ok a c') :
    withChannel use host = .ok a { host with channel := some c' } := by
  rw [withChannel, h]
  dsimp only
  rw [huse]

/-- What is written of a line are the bytes of the text, and CR LF. -/
theorem call_writeln (text : String) (h : host.channel = some c) :
    call "writeln" [.text text] host = .ok .undefined
      { host with channel := some { c with sent := c.sent ++ (Text.utf8 text ++ [cr, lf]) } } := by
  have hname : HostFunction.ofName? "writeln" = some .writeLine := by decide
  rw [call, hname]
  show perform .writeLine [.text text] host = _
  rw [perform, bind_of_ok (withChannel_of_ok h (c.send_line text))]
  rfl

/-- A line that is there is read. -/
theorem call_readln {line : String} {c' : MemoryChannel} (h : host.channel = some c)
    (hread : readLine c = .ok line c') :
    call "readln" [] host = .ok (.text line) { host with channel := some c' } := by
  have hname : HostFunction.ofName? "readln" = some .readLine := by decide
  rw [call, hname]
  show perform .readLine [] host = _
  rw [perform, bind_of_ok (withChannel_of_ok h hread)]
  rfl

end Host

/-- Lines are read from the sources in memory just by the rule. So a text that has neither CR nor LF
and at most 8190 bytes is read back from the bytes that were written for it, whatever comes behind
them, and what comes behind is left. -/
theorem lines_exact :
    (∀ s : ArraySource,
      LineRule ArraySource.unread (.unexpectedEnd 1 0) s.unread (readLine s)) ∧
    (∀ c : MemoryChannel,
      LineRule MemoryChannel.incoming .closed c.incoming (readLine c)) ∧
    ∀ text : String, '\r' ∉ text.toList → '\n' ∉ text.toList → (Text.utf8 text).length ≤ 8190 →
      ∃ line : Bytes,
        (∀ (host : Host MemoryChannel) (c : MemoryChannel), host.channel = some c →
          Host.call "writeln" [.text text] host = .ok .undefined
            { host with channel := some { c with sent := c.sent ++ line } }) ∧
        ∀ (host : Host MemoryChannel) (c : MemoryChannel) (rest : Bytes),
          host.channel = some c → c.incoming = line ++ rest →
          ∃ c', Host.call "readln" [] host = .ok (.text text) { host with channel := some c' } ∧
            c'.incoming = rest := by
  refine ⟨lineRule_readLine, lineRule_readLine, ?_⟩
  intro text hcr hlf hlength
  refine ⟨Text.utf8 text ++ [cr, lf], fun host c => Host.call_writeln text, ?_⟩
  intro host c rest hchannel hincoming
  have hunread : unread c = Text.utf8 text ++ cr :: lf :: rest :=
    hincoming.trans (List.append_assoc _ _ _)
  obtain ⟨c', hread, hrest⟩ :=
    readLine_of_crlf hunread (fun b hb => inLine_of_mem_utf8 hcr hlf hb) hlength
  rw [Text.ofUtf8_utf8] at hread
  exact ⟨c', Host.call_readln hchannel hread, hrest⟩

/-- A line with a character of two bytes, and a byte behind it. -/
theorem readln_writeln_green :
    ∃ written c' : MemoryChannel,
      Host.call "writeln" [.text "grün"] { channel := some ⟨[], .bigEndian, #[]⟩ } =
        .ok .undefined { channel := some written } ∧
      Host.call "readln" []
          { channel := some ⟨written.sent.toList ++ [0x21], .littleEndian, #[]⟩ } =
        .ok (.text "grün") { channel := some c' } ∧
      c'.incoming = [0x21] := by
  obtain ⟨line, hwrite, hread⟩ := lines_exact.2.2 "grün" (by decide) (by decide) (by decide)
  let written : MemoryChannel := ⟨[], .bigEndian, (#[] : Array UInt8) ++ line⟩
  obtain ⟨c', hreadln, hrest⟩ :=
    hread { channel := some ⟨written.sent.toList ++ [0x21], .littleEndian, #[]⟩ } _ [0x21] rfl
      (by simp [written])
  exact ⟨written, c', hwrite { channel := some ⟨[], .bigEndian, #[]⟩ } _ rfl, hreadln, hrest⟩

end ScriptFuzz
