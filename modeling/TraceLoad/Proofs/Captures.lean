import TraceLoad.Proofs.Layouts
import TraceLoad.Proofs.Verdict
import TraceLoad.Topology.Export

/-! # Exports however they are written

`Capture.IsWritten c bytes` says that the bytes are an export of what `c` has captured: nested
records whose fields stand in any order, with any others among them and blanks between all parts.
What is read from such bytes has the spans of the capture, and finds the same service for every
process of a trace (`read_written`). So the topology that is made of them is the one that the spans
make (`ofExport_written`).
-/

namespace TraceLoad

open Json Json.Reader

/-- A record with a text under a name, and whatever else. -/
def IsTextRecord (name s : String) : List UInt8 → Prop :=
  IsRecordOf [(name, IsTextOf s)] [name]

/-- What may stand in the record of a span. -/
def CapturedSpan.layout (s : CapturedSpan) : Layout := [
  ("spanID", IsTextOf s.id),
  ("references", IsListOf (IsTextRecord "spanID") s.references),
  ("processID", IsTextOf s.process)]

/-- The bytes of a span. One that refers to no other need not say so. -/
def CapturedSpan.IsWritten (s : CapturedSpan) (bytes : List UInt8) : Prop :=
  IsRecordOf s.layout ["spanID", "references", "processID"] bytes ∨
    s.references = [] ∧ IsRecordOf s.layout ["spanID", "processID"] bytes

/-- What may stand in the record of a trace, whose table has the given entries one after the
other. -/
def CapturedTrace.layout (t : CapturedTrace) (table : List (String × String)) : Layout := [
  ("spans", IsListOf CapturedSpan.IsWritten t.spans),
  ("processes", IsTableOf (IsTextRecord "serviceName") table)]

/-- The bytes of a trace. The entries of its table may stand in any order that gives every process
its service; of several for one process the last one counts. -/
def CapturedTrace.IsWritten (t : CapturedTrace) (bytes : List UInt8) : Prop :=
  ∃ table, (∀ p, (CapturedTrace.mk t.spans table.reverse).service? p = t.service? p) ∧
    IsRecordOf (t.layout table) ["spans", "processes"] bytes

/-- The bytes of an export. -/
def Capture.IsWritten (c : Capture) (bytes : List UInt8) : Prop :=
  ∃ p : Padded, bytes = p.bytes ∧
    IsRecordOf [("data", IsListOf CapturedTrace.IsWritten c.traces)] ["data"] p.inner

variable {bytes : List UInt8} {name s : String} {room : Nat}

/-! ## Records of one field -/

/-- With one field that counts, a record gives what that field gives. -/
theorem collects_single {α : Type} {r : Reader α} {Holds : List UInt8 → Prop} (name : String)
    (Good : α → Prop) (htakes : ∀ bytes, Holds bytes → ∃ x, Good x ∧ Takes r bytes x) :
    Collects (fun (s : Option α) k => if k = name then once s r some else Reader.ignored s)
      [(name, Holds)] (Gathered name Good) where
  fresh := by
    intro seen s k Holds' bytes hs hmem hfresh hholds
    -- the one field that is wanted has not been seen yet, so it is kept
    cases List.mem_singleton.1 hmem
    rcases htakes bytes hholds with ⟨x, hx, htake⟩
    refine ⟨some <$> r, some x, ?_, htake.map some, gathered_self hx⟩
    rw [if_pos rfl, once_of_missing (hs.missing hfresh)]
  other := by
    intro s k hk
    -- all other fields are passed over
    rw [if_neg fun h => hk (List.mem_singleton.2 h)]
    rfl
  same hsame hs := hs.congr hsame

/-- A text is read from a record that has it under a name. -/
theorem takes_singleText (hroom : room ≠ 0) (h : IsTextRecord name s bytes) :
    Takes (singleText name room) bytes s := by
  have hvalue : ∀ bytes, IsTextOf s bytes → ∃ x, x = s ∧ Takes text bytes x := by
    intro bytes hbytes
    exact ⟨s, rfl, takes_text hbytes⟩
  have hcollects := collects_single name (· = s) hvalue
  rcases hcollects.takes_structureOf gathered_nil (by simp) h hroom (element true text) require with
    ⟨found, hfound, htakes⟩
  rcases hfound.found (by simp) with ⟨_, rfl, rfl⟩
  exact htakes _ rfl

/-! ## Spans -/

namespace CapturedSpan

variable {span : CapturedSpan}

theorem takes_references {ids : List String} (hroom : 2 ≤ room)
    (h : IsListOf (IsTextRecord "spanID") ids bytes) :
    Takes (referencesReader room) bytes ids := by
  apply takes_listOf_self (by omega) _ h
  intro id bytes hid
  exact takes_singleText (by omega) hid

/-- What has been gathered of a span. -/
structure After (span : CapturedSpan) (seen : List String) (f : Fields) : Prop where
  id : Gathered "spanID" (· = span.id) seen f.id
  references : Gathered "references" (· = span.references) seen f.references
  process : Gathered "processID" (· = span.process) seen f.process

/-- The fields of a captured span are gathered under their names, and no others. -/
theorem collects_field (span : CapturedSpan) {room : Nat} (hroom : 2 ≤ room) :
    Collects (Fields.field room) span.layout span.After where
  fresh := by
    intro seen f name Holds bytes hf hmem hfresh hholds
    simp only [layout, List.mem_cons, Prod.mk.injEq, List.not_mem_nil, or_false] at hmem
    -- each of the three fills its own place and leaves the other two
    rcases hmem with ⟨rfl, rfl⟩ | ⟨rfl, rfl⟩ | ⟨rfl, rfl⟩
    · refine ⟨_, _, once_of_missing (hf.id.missing hfresh), (takes_text hholds).map _, ?_⟩
      exact ⟨gathered_self rfl, hf.references.cons (by decide), hf.process.cons (by decide)⟩
    · refine ⟨_, _, once_of_missing (hf.references.missing hfresh),
        (takes_references hroom hholds).map _, ?_⟩
      exact ⟨hf.id.cons (by decide), gathered_self rfl, hf.process.cons (by decide)⟩
    · refine ⟨_, _, once_of_missing (hf.process.missing hfresh), (takes_text hholds).map _, ?_⟩
      exact ⟨hf.id.cons (by decide), hf.references.cons (by decide), gathered_self rfl⟩
  other := by
    intro f name hname
    simp only [Layout.names, layout, List.map_cons, List.map_nil, List.mem_cons,
      List.not_mem_nil, or_false, not_or] at hname
    rw [Fields.field, if_neg hname.1, if_neg hname.2.1, if_neg hname.2.2]
    rfl
  same hsame hf := ⟨hf.id.congr hsame, hf.references.congr hsame, hf.process.congr hsame⟩

/-- What has been gathered is the span, if all that it needs has been there. -/
theorem After.toSpan?_eq {seen : List String} {f : Fields} (h : span.After seen f)
    (hid : "spanID" ∈ seen) (hprocess : "processID" ∈ seen)
    (hreferences : "references" ∈ seen ∨ span.references = []) : f.toSpan? = some span := by
  rcases h.id.found hid with ⟨_, hfid, rfl⟩
  rcases h.process.found hprocess with ⟨_, hfprocess, rfl⟩
  -- a span without references has an empty list of them, whether it says so or not
  have hlisted : f.references.getD [] = span.references := by
    by_cases hseen : "references" ∈ seen
    · rcases h.references.found hseen with ⟨_, hfreferences, rfl⟩
      rw [hfreferences, Option.getD_some]
    · rw [h.references.missing hseen, hreferences.resolve_left hseen, Option.getD_none]
  rw [Fields.toSpan?, hfid, hfprocess, hlisted]
  rfl

/-- A span is read from whatever it is written as. -/
theorem takes_reader (hroom : 3 ≤ room) (h : span.IsWritten bytes) :
    Takes (CapturedSpan.reader room) bytes span := by
  have houter : room ≠ 0 := by omega
  have hinner : 2 ≤ room - 1 := by omega
  have hcollects := collects_field span hinner
  have hnothing : span.After [] {} := ⟨gathered_nil, gathered_nil, gathered_nil⟩
  unfold CapturedSpan.reader
  -- the references may be missing if there are none
  rcases h with h | ⟨hnone, h⟩
  · rcases hcollects.takes_structureOf hnothing (by decide) h houter _ _ with ⟨f, hf, htakes⟩
    apply htakes
    rw [hf.toSpan?_eq (by simp) (by simp) (Or.inl (by simp))]
    rfl
  · rcases hcollects.takes_structureOf hnothing (by decide) h houter _ _ with ⟨f, hf, htakes⟩
    apply htakes
    rw [hf.toSpan?_eq (by simp) (by simp) (Or.inr hnone)]
    rfl

end CapturedSpan

/-! ## Traces -/

namespace CapturedTrace

variable {t t' : CapturedTrace} {table : List (String × String)}

/-- The same spans, and the same service for every process. -/
structure Agrees (t t' : CapturedTrace) : Prop where
  spans : t'.spans = t.spans
  services : ∀ p, t'.service? p = t.service? p

/-- The services of the processes are gathered, those that are read later in front. -/
theorem fills_table {fs : List Field} (hroom : 2 ≤ room)
    (h : List.Forall₂ (fun e f => f.name = e.1 ∧ IsTextRecord "serviceName" e.2 f.value.inner)
      table fs) (read : List (String × String)) :
    Fills (fun table process => .ok ((fun service => (process, service) :: table) <$>
      singleText "serviceName" (room - 1))) read fs (table.reverse ++ read) := by
  induction h generalizing read with
  | nil => exact .nil
  | @cons e f table fs hentry _ ih =>
    rcases e with ⟨process, service⟩
    rcases hentry with ⟨rfl, hservice⟩
    have hinner : room - 1 ≠ 0 := by omega
    have htakes := (takes_singleText hinner hservice).map fun service => (f.name, service) :: read
    -- what has been read before stays behind what is read now
    rw [List.reverse_cons, List.append_assoc, List.singleton_append]
    exact .cons rfl htakes.reads_padded (ih _)

/-- A table is read with its last entry in front. -/
theorem takes_services (hroom : 2 ≤ room) (h : IsTableOf (IsTextRecord "serviceName") table bytes) :
    Takes (servicesReader room) bytes table.reverse := by
  rcases h with ⟨fs, hrecord, hentries⟩
  have hfills := fills_table hroom hentries []
  rw [List.append_nil] at hfills
  exact takes_recordOf (by omega) hfills hrecord

/-- A list of written spans is read as those spans. -/
theorem takes_spans {spans : List CapturedSpan} (hroom : 4 ≤ room)
    (h : IsListOf CapturedSpan.IsWritten spans bytes) :
    Takes (spansReader room) bytes spans := by
  apply takes_listOf_self (by omega) _ h
  intro s bytes hs
  exact CapturedSpan.takes_reader (by omega) hs

/-- What has been gathered of a trace. -/
structure After (t : CapturedTrace) (table : List (String × String)) (seen : List String)
    (f : Fields) : Prop where
  spans : Gathered "spans" (· = t.spans) seen f.spans
  services : Gathered "processes" (· = table.reverse) seen f.services

theorem collects_field (t : CapturedTrace) (table : List (String × String)) (hroom : 4 ≤ room) :
    Collects (Fields.field room) (t.layout table) (t.After table) where
  fresh := by
    intro seen f name Holds bytes hf hmem hfresh hholds
    simp only [layout, List.mem_cons, Prod.mk.injEq, List.not_mem_nil, or_false] at hmem
    rcases hmem with ⟨rfl, rfl⟩ | ⟨rfl, rfl⟩
    · refine ⟨_, _, once_of_missing (hf.spans.missing hfresh),
        (takes_spans hroom hholds).map _, ?_⟩
      exact ⟨gathered_self rfl, hf.services.cons (by decide)⟩
    · refine ⟨_, _, once_of_missing (hf.services.missing hfresh),
        (takes_services (by omega) hholds).map _, ?_⟩
      exact ⟨hf.spans.cons (by decide), gathered_self rfl⟩
  other := by
    intro f name hname
    simp only [Layout.names, layout, List.map_cons, List.map_nil, List.mem_cons,
      List.not_mem_nil, or_false, not_or] at hname
    rw [Fields.field, if_neg hname.1, if_neg hname.2]
    rfl
  same hsame hf := ⟨hf.spans.congr hsame, hf.services.congr hsame⟩

/-- From whatever a trace is written as, one is read that agrees with it. -/
theorem takes_reader (hroom : 5 ≤ room) (h : t.IsWritten bytes) :
    ∃ t', t.Agrees t' ∧ Takes (CapturedTrace.reader room) bytes t' := by
  rcases h with ⟨table, hservices, h⟩
  -- the table that is read need not be that of the trace, but it gives the same services
  refine ⟨⟨t.spans, table.reverse⟩, ⟨rfl, hservices⟩, ?_⟩
  have houter : room ≠ 0 := by omega
  have hinner : 4 ≤ room - 1 := by omega
  have hcollects := collects_field t table hinner
  have hnothing : t.After table [] {} := ⟨gathered_nil, gathered_nil⟩
  unfold CapturedTrace.reader
  rcases hcollects.takes_structureOf hnothing (by decide) h houter _ _ with ⟨f, hf, htakes⟩
  apply htakes
  rcases hf.spans.found (by simp) with ⟨_, hspans, rfl⟩
  rcases hf.services.found (by simp) with ⟨_, hread, rfl⟩
  rw [Fields.toTrace?, hspans, hread]
  rfl

end CapturedTrace

/-! ## Exports -/

namespace Capture

variable {c c' : Capture}

/-- A written capture is read as one whose traces have the same spans and services. -/
theorem takes_reader (hroom : 7 ≤ room)
    (h : IsRecordOf [("data", IsListOf CapturedTrace.IsWritten c.traces)] ["data"] bytes) :
    ∃ c' : Capture, List.Forall₂ CapturedTrace.Agrees c.traces c'.traces ∧
      Takes (Capture.reader room) bytes c' := by
  have hvalue : ∀ bytes, IsListOf CapturedTrace.IsWritten c.traces bytes →
      ∃ traces, List.Forall₂ CapturedTrace.Agrees c.traces traces ∧
        Takes (tracesReader (room - 1)) bytes traces := by
    intro bytes hbytes
    have hinner : room - 1 ≠ 0 := by omega
    apply takes_listOf hinner _ hbytes
    intro t bytes ht
    exact CapturedTrace.takes_reader (by omega) ht
  -- a capture has one field, which holds its traces
  have hcollects := collects_single "data" (List.Forall₂ CapturedTrace.Agrees c.traces) hvalue
  have houter : room ≠ 0 := by omega
  unfold Capture.reader
  rcases hcollects.takes_structureOf gathered_nil (by simp) h houter _ _ with
    ⟨found, hfound, htakes⟩
  rcases hfound.found (by simp) with ⟨traces, rfl, hagrees⟩
  exact ⟨⟨traces⟩, hagrees, htakes _ rfl⟩

theorem dropWhile_gap {gap : List UInt8} (h : IsGap gap) : gap.dropWhile blankByte = [] := by
  rw [← List.append_nil gap, List.dropWhile_append_of_pos h, List.dropWhile_nil]

/-- From whatever an export is written as, one is read whose traces agree with its own. -/
theorem read_written (h : c.IsWritten bytes) :
    ∃ c', Capture.read bytes = .ok c' ∧ List.Forall₂ CapturedTrace.Agrees c.traces c'.traces := by
  rcases h with ⟨p, rfl, h⟩
  have hroom : 7 ≤ maxNesting := by decide
  rcases takes_reader hroom h with ⟨c', hagrees, htakes⟩
  refine ⟨c', ?_, hagrees⟩
  have hends : Ends p.after := by
    rw [← List.append_nil p.after]
    exact ends_gap p.blankAfter trivial
  rw [Capture.read, document, Padded.bytes, htakes.reads p.before p.after p.blankBefore hends]
  exact if_pos (dropWhile_gap p.blankAfter)

/-- Every span is described by its own trace. -/
theorem descriptors_eq_mapM (c : Capture) :
    c.descriptors = c.spans.mapM fun x => x.1.descriptor x.2 :=
  rfl

theorem descriptors_of_agrees (h : List.Forall₂ CapturedTrace.Agrees c.traces c'.traces) :
    c'.descriptors = c.descriptors := by
  rw [descriptors_eq_mapM, descriptors_eq_mapM, spans, spans]
  generalize c.traces = ts, c'.traces = ts' at h
  induction h with
  | nil => rfl
  | @cons t t' ts ts' ht _ ih =>
    -- only the answers of the table count, not in which order it is kept
    have hdescriptor : t'.descriptor = t.descriptor := by
      funext s
      rw [CapturedTrace.descriptor, CapturedTrace.descriptor, ht.services]
    have hfront : (t'.spans.map fun s => (t', s)).mapM (fun x => x.1.descriptor x.2) =
        (t.spans.map fun s => (t, s)).mapM fun x => x.1.descriptor x.2 := by
      rw [List.mapM_map, List.mapM_map, ht.spans]
      exact congrArg (t.spans.mapM ·) hdescriptor
    rw [List.flatMap_cons, List.flatMap_cons, List.mapM_append, List.mapM_append, hfront, ih]

/-- The first span whose process its trace does not list is reported, and with none the spans have
the services of their processes. -/
theorem descriptors_eq (c : Capture) :
    c.descriptors =
      match c.spans.find? fun x => (x.1.service? x.2.process).isNone with
      | some x => .error (.unknownProcess x.2.id x.2.process)
      | none =>
        .ok (c.spans.map fun x => ⟨x.2.id, x.2.parent, (x.1.service? x.2.process).getD ""⟩) := by
  rw [descriptors_eq_mapM]
  induction c.spans with
  | nil => rfl
  | cons x xs ih =>
    rw [List.mapM_cons, ih, List.find?_cons, CapturedTrace.descriptor, List.map_cons]
    -- the first span decides, unless its process is listed
    cases x.1.service? x.2.process with
    | none => rfl
    | some service =>
      dsimp only [Option.isNone_some]
      cases xs.find? fun x => (x.1.service? x.2.process).isNone with
      | some y => rfl
      | none => rfl

end Capture

/-! ## Compact form -/

def CapturedSpan.write (s : CapturedSpan) : List UInt8 :=
  writeRecord [
    ("spanID", writeText s.id),
    ("references", writeList (s.references.map fun id => writeRecord [("spanID", writeText id)])),
    ("processID", writeText s.process)]

/-- The last entry of the table is written first. -/
def CapturedTrace.write (t : CapturedTrace) : List UInt8 :=
  writeRecord [
    ("spans", writeList (t.spans.map CapturedSpan.write)),
    ("processes", writeRecord (t.services.map fun e =>
      (e.1, writeRecord [("serviceName", writeText e.2)])).reverse)]

def Capture.write (c : Capture) : List UInt8 :=
  writeRecord [("data", writeList (c.traces.map CapturedTrace.write))]

theorem forall₂_map {α β : Type} {R : α → β → Prop} {f : α → β} (h : ∀ x, R x (f x))
    (xs : List α) : List.Forall₂ R xs (xs.map f) := by
  rw [List.forall₂_map_right_iff, List.forall₂_same]
  intro x _
  exact h x

theorem isTextRecord_writeRecord (name s : String) :
    IsTextRecord name s (writeRecord [(name, writeText s)]) :=
  isRecordOf_writeRecord (by simp [Layout.names]) (by simp [isTextOf_writeText])
    (by simp [Layout.names])

theorem CapturedSpan.isWritten_write (s : CapturedSpan) : s.IsWritten s.write := by
  have hreferences := isListOf_writeList
    (forall₂_map (isTextRecord_writeRecord "spanID") s.references)
  refine .inl (isRecordOf_writeRecord ?_ ?_ ?_)
  · simp [Layout.names, layout]
  · simp [layout, isTextOf_writeText, hreferences]
  · simp [Layout.names, layout]

/-- The compact form of a trace is one of those in which it can be written. -/
theorem CapturedTrace.isWritten_write (t : CapturedTrace) : t.IsWritten t.write := by
  have hspans := isListOf_writeList (forall₂_map CapturedSpan.isWritten_write t.spans)
  have htable : IsTableOf (IsTextRecord "serviceName") t.services.reverse
      (writeRecord (t.services.map fun e =>
        (e.1, writeRecord [("serviceName", writeText e.2)])).reverse) := by
    apply isTableOf_writeRecord
    rw [← List.map_reverse, List.forall₂_map_right_iff, List.forall₂_same]
    intro e _
    exact ⟨rfl, isTextRecord_writeRecord "serviceName" e.2⟩
  -- a reader puts what it finds later in front, so the writer begins with the last service
  refine ⟨t.services.reverse, fun p => by rw [List.reverse_reverse], ?_⟩
  refine isRecordOf_writeRecord ?_ ?_ ?_
  · simp [Layout.names, layout]
  · simp [layout, hspans, htable]
  · simp [Layout.names, layout]

/-- Every export can be written. -/
theorem Capture.isWritten_write (c : Capture) : c.IsWritten c.write := by
  have htraces := isListOf_writeList (forall₂_map CapturedTrace.isWritten_write c.traces)
  refine ⟨.tight c.write, (Padded.bytes_tight _).symm, isRecordOf_writeRecord ?_ ?_ ?_⟩
  · simp [Layout.names]
  · simp [htraces]
  · simp [Layout.names]

/-- What is made of an export, however it is written: the first span whose process is not in the
table of its own trace is reported, before anything else about the spans is looked at; and with
none the topology is that of the spans in their order, or refused as their list is. Each has
its first reference as its parent, and its service from the table of its own trace. -/
theorem Topology.ofExport_written {c : Capture} (h : c.IsWritten bytes) :
    Topology.ofExport bytes =
      match c.spans.find? fun x => (x.1.service? x.2.process).isNone with
      | some x => .error (.topology (.unknownProcess x.2.id x.2.process))
      | none =>
        (Topology.ofDescriptors (c.spans.map fun x =>
          ⟨x.2.id, x.2.references.head?.getD "", (x.1.service? x.2.process).getD ""⟩)).mapError
            .topology := by
  rcases Capture.read_written h with ⟨c', hread, hagrees⟩
  rw [Topology.ofExport, hread]
  dsimp only
  rw [Capture.topology, Capture.descriptors_of_agrees hagrees, Capture.descriptors_eq]
  -- a process that is not in the table comes before any fault of the topology
  cases c.spans.find? fun x => (x.1.service? x.2.process).isNone with
  | some x => rfl
  | none =>
    dsimp only [bind, Except.bind, CapturedSpan.parent]
    cases Topology.ofDescriptors _ with
    | error e => rfl
    | ok t => rfl

namespace Topology

/-- The front end and its call, each in a trace of its own where one process stands for another
service. -/
def callCapture : Capture where
  traces := [
    ⟨[⟨"1", [], "p"⟩], [("p", "frontend")]⟩,
    ⟨[⟨"2", ["1", "7"], "p"⟩], [("p", "cartservice")]⟩]

/-- The span of the front end, with the fields the other way round. -/
def frontendBytes : List UInt8 :=
  writeRecord [
    ("processID", writeText "p"), ("duration", ascii "-1.5e3"), ("spanID", writeText "1")]

/-- The span of the call, with two references. -/
def cartBytes : List UInt8 :=
  writeRecord [
    ("processID", writeText "p"),
    ("references", writeList [
      writeRecord [("refType", writeText "CHILD_OF"), ("spanID", writeText "1")],
      writeRecord [("spanID", writeText "7")]]),
    ("spanID", writeText "2")]

/-- A trace with its table in front. -/
def traceBytes (service : String) (span : List UInt8) : List UInt8 :=
  writeRecord [
    ("processes", writeRecord [
      ("p", writeRecord [("tags", writeList [writeList []]), ("serviceName", writeText service)])]),
    ("spans", writeList [span])]

/-- The traces behind a field that means nothing. -/
def callBytes : List UInt8 :=
  writeRecord [
    ("errors", ascii "null"),
    ("data", writeList [traceBytes "frontend" frontendBytes, traceBytes "cartservice" cartBytes])]

theorem isWritten_frontendBytes : (CapturedSpan.mk "1" [] "p").IsWritten frontendBytes := by
  have hduration : IsValue (ascii "-1.5e3") := by
    have hbytes : ascii "-1.5e3" = minus :: ([0x31] ++ ([point, 0x35] ++ [0x65, 0x33])) := by decide
    have hdigit : ∀ b, isDigit b = true → AreDigits [b] := by simp [AreDigits]
    rw [hbytes]
    refine .number (.negative ⟨_, _, _, ?_, ?_, ?_, rfl⟩)
    · exact .digits (hdigit _ rfl) (by decide)
    · exact .places (hdigit _ rfl)
    · exact .unsigned rfl (hdigit _ rfl)
  refine .inr ⟨rfl, isRecordOf_writeRecord ?_ ?_ ?_⟩
  · decide
  · simp [CapturedSpan.layout, isTextOf_writeText]
  · simp [Layout.names, CapturedSpan.layout, hduration]

/-- The bytes are those of a span whose references are records with other fields among them. -/
theorem isWritten_cartBytes : (CapturedSpan.mk "2" ["1", "7"] "p").IsWritten cartBytes := by
  have hkind : IsValue (writeText "CHILD_OF") := .text (isTextOf_writeText "CHILD_OF").isText
  have hreferences : IsListOf (IsTextRecord "spanID") ["1", "7"] (writeList [
      writeRecord [("refType", writeText "CHILD_OF"), ("spanID", writeText "1")],
      writeRecord [("spanID", writeText "7")]]) := by
    refine isListOf_writeList (.cons ?_ (.cons (isTextRecord_writeRecord "spanID" "7") .nil))
    apply isRecordOf_writeRecord <;> simp [Layout.names, isTextOf_writeText, hkind]
  refine .inl (isRecordOf_writeRecord ?_ ?_ ?_)
  · decide
  · simp [CapturedSpan.layout, isTextOf_writeText, hreferences]
  · simp [Layout.names, CapturedSpan.layout]

/-- A trace of one span, written with a field that is not read. -/
theorem isWritten_traceBytes {span : CapturedSpan} {service : String} (h : span.IsWritten bytes) :
    (CapturedTrace.mk [span] [("p", service)]).IsWritten (traceBytes service bytes) := by
  have hempty : IsValue (writeList []) := isValue_writeList (by simp)
  have htags : IsValue (writeList [writeList []]) := isValue_writeList (by simpa using hempty)
  have htable : IsTableOf (IsTextRecord "serviceName") [("p", service)] (writeRecord [
      ("p", writeRecord [
        ("tags", writeList [writeList []]), ("serviceName", writeText service)])]) := by
    refine isTableOf_writeRecord (.cons ⟨rfl, ?_⟩ .nil)
    apply isRecordOf_writeRecord <;> simp [Layout.names, isTextOf_writeText, htags]
  have hspans := isListOf_writeList (.cons h .nil)
  refine ⟨[("p", service)], fun _ => rfl, isRecordOf_writeRecord ?_ ?_ ?_⟩
  · simpa [Layout.names, CapturedTrace.layout] using .swap _ _ _
  · simp [CapturedTrace.layout, htable, hspans]
  · simp [Layout.names, CapturedTrace.layout]

theorem isWritten_callBytes : callCapture.IsWritten callBytes := by
  have hnull : IsValue (ascii "null") := .word (by simp)
  have htraces : IsListOf CapturedTrace.IsWritten callCapture.traces (writeList [
      traceBytes "frontend" frontendBytes, traceBytes "cartservice" cartBytes]) :=
    isListOf_writeList (.cons (isWritten_traceBytes isWritten_frontendBytes)
      (.cons (isWritten_traceBytes isWritten_cartBytes) .nil))
  refine ⟨.tight callBytes, (Padded.bytes_tight _).symm, isRecordOf_writeRecord ?_ ?_ ?_⟩
  · simp [Layout.names]
  · simp [htraces]
  · simp [Layout.names, hnull]

/-- The table of a span's own trace counts, and of two references the first one. -/
theorem ofExport_callBytes : callCapture.IsWritten callBytes ∧
    ofExport callBytes = .ok ⟨call, callTree⟩ := by
  refine ⟨isWritten_callBytes, ?_⟩
  rw [ofExport_written isWritten_callBytes]
  exact congrArg (Except.mapError CaptureError.topology) ofDescriptors_call

end Topology

end TraceLoad
