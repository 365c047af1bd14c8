import TraceLoad.Exporter
import TraceLoad.Proofs.Header
import TraceLoad.Proofs.Reads
import TraceLoad.Proofs.Visible
import TraceLoad.Span.Json

/-! # Spans are read back from their lines

A span is read back from the record that it is written as, unless one of its attributes is a real
number. Records hold no end of a line, so a text of many spans falls apart into their records at
the ends of its lines (`lines_read_back`).
-/

namespace TraceLoad

open Json (Reader)
open Json.Reader (Reads Gathers)

/-- An identifier is read back. -/
theorem Ident.reads {n : Nat} (i : Ident n) : Reads (Ident.reader n) i.write i := by
  intro rest hrest
  rw [Ident.reader, Ident.write, Reader.bind_ok (Reader.reads_text i.toHex rest hrest),
    Ident.ofHex_toHex]
  rfl

/-- A time is read back. -/
theorem Timestamp.reads (t : Timestamp) : Reads Timestamp.reader t.write t :=
  (Reader.reads_natural t.nanos).map Timestamp.mk

namespace AttributeValue

/-- Whether a value is a real number. -/
def IsReal (v : AttributeValue) : Prop := ∃ x, v = real x

/-- An attribute's value is read as the variant that it was written as. -/
theorem reads {v : AttributeValue} (h : ¬ v.IsReal) (room : Nat) :
    Reads (AttributeValue.reader room) v.write v := by
  intro rest hrest
  cases v with
  | text s =>
    rw [reader, write, Reader.bind_ok (Reader.reads_value_text room s rest hrest)]
    rfl
  | int n =>
    -- every integer fits into those that the reader keeps whole
    have hrange := And.intro n.minValue_le_toInt n.toInt_le
    have hwhole : Reader.IsWhole n.toInt :=
      ⟨hrange.1, Int.lt_of_le_of_lt hrange.2 (by decide)⟩
    rw [reader, write, Reader.bind_ok (Reader.reads_value_whole room hwhole rest hrest), ofJson?,
      if_pos hrange, Int64.ofInt_toInt]
    rfl
  | real x => exact absurd ⟨x, rfl⟩ h
  | flag b =>
    have hbytes : (flag b).write = (Json.flag b).write := by cases b <;> rfl
    rw [reader, hbytes, Reader.bind_ok (Reader.reads_value_flag room b rest hrest)]
    rfl

/-- A value is written without control characters. -/
theorem visible_write (v : AttributeValue) : Json.Visible v.write := by
  cases v with
  | text s => exact Json.visible_writeText s
  | int n => exact Json.visible_writeInt n.toInt
  | real x => exact Json.visible_writeReal x
  | flag b => cases b <;> decide

end AttributeValue

namespace Attributes

/-- A name behind all others is put at the end. -/
theorem insertEntry_of_lt {k : String} {v : AttributeValue} {es : List (String × AttributeValue)}
    (h : ∀ e ∈ es, e.1 < k) : insertEntry k v es = es ++ [(k, v)] := by
  induction es with
  | nil => rfl
  | cons e es ih =>
    have hlt := h e List.mem_cons_self
    have hnot : ¬ k < e.1 := String.lt_asymm hlt
    have hne : k ≠ e.1 := by
      rintro rfl
      exact String.lt_irrefl _ hlt
    rw [insertEntry, if_neg hnot, if_neg hne, ih fun e he => h e (List.mem_cons_of_mem _ he)]
    rfl

/-- Written entries are gathered behind those that are there already, since they come in order. -/
theorem gathers_entries (room : Nat) {es : List (String × AttributeValue)}
    (hreal : ∀ e ∈ es, ¬ e.2.IsReal) {a a' : Attributes} (h : a'.entries = a.entries ++ es) :
    Gathers (fun a name => .ok ((fun v => a.insert name v) <$> AttributeValue.reader room)) a
      (es.map fun e => (e.1, e.2.write)) a' := by
  induction es generalizing a with
  | nil =>
    obtain rfl : a' = a := Attributes.ext (h.trans (List.append_nil _))
    exact .nil
  | cons e es ih =>
    have hsorted := a'.sorted
    rw [h] at hsorted
    -- the entries are written in the order of their keys, so the next one goes to the end
    have hlast : ∀ d ∈ a.entries, d.1 < e.1 := fun d hd =>
      (List.pairwise_append.1 hsorted).2.2 d hd e List.mem_cons_self
    have hinsert : (a.insert e.1 e.2).entries = a.entries ++ [e] := insertEntry_of_lt hlast
    refine .cons rfl ((AttributeValue.reads (hreal e List.mem_cons_self) room).map _) ?_
    refine ih (fun e he => hreal e (List.mem_cons_of_mem _ he)) ?_
    rw [hinsert, h, List.append_assoc, List.singleton_append]

theorem reads {a : Attributes} (h : ∀ e ∈ a.entries, ¬ e.2.IsReal) {room : Nat} (hroom : room ≠ 0) :
    Reads (Attributes.reader room) a.write a :=
  (gathers_entries (room - 1) h rfl).reads_recordOf hroom

theorem visible_write (a : Attributes) : Json.Visible a.write := by
  refine Json.visible_writeRecord fun f hf => ?_
  obtain ⟨e, -, rfl⟩ := List.mem_map.1 hf
  exact e.2.visible_write

end Attributes

namespace Span

/-- No attribute of the span is a real number. -/
def WithoutReals (s : Span) : Prop := ∀ e ∈ s.attributes.entries, ¬ e.2.IsReal

/-- A parent that may be missing is read back. -/
theorem reads_parent (parent : Option SpanId) :
    Reads (Reader.optional (Ident.reader 8)) (writeOptional Ident.write parent) parent := by
  cases parent with
  | none => exact Reader.reads_optional_none _
  | some i => exact i.reads.optional rfl rfl (by decide)

/-- An end that may be missing is read back. -/
theorem reads_end (stop : Option Timestamp) :
    Reads (Reader.optional Timestamp.reader) (writeOptional Timestamp.write stop) stop := by
  cases stop with
  | none => exact Reader.reads_optional_none _
  | some t =>
    obtain ⟨b, bytes, hcons, hdigit⟩ := Json.Reader.exists_writeNat_eq_cons t.nanos.toNat
    have hfirst : Reader.beginsNumber b = true := by simp [Reader.beginsNumber, hdigit]
    have hblank := (Reader.of_beginsNumber hfirst).1
    refine t.reads.optional (b := b) (congrArg List.head? hcons) hblank ?_
    rintro rfl
    cases hdigit

/-- The eight fields of a span are gathered from what was written. -/
theorem gathers_fields {s : Span} (h : s.WithoutReals) {room : Nat} (hroom : room ≠ 0) :
    Gathers (Fields.field room) {} [
      ("trace_id", s.traceId.write),
      ("span_id", s.spanId.write),
      ("parent_span_id", writeOptional Ident.write s.parentSpanId),
      ("name", Json.writeText s.name),
      ("service_name", Json.writeText s.service),
      ("start_time", s.startTime.write),
      ("end_time", writeOptional Timestamp.write s.endTime),
      ("attributes", s.attributes.write)]
    ⟨some s.traceId, some s.spanId, some s.parentSpanId, some s.name, some s.service,
      some s.startTime, some s.endTime, some s.attributes⟩ := by
  -- each field is known by its name and fills its own place
  refine .cons rfl (s.traceId.reads.map _) ?_
  refine .cons rfl (s.spanId.reads.map _) ?_
  refine .cons rfl ((reads_parent s.parentSpanId).map _) ?_
  refine .cons rfl ((Reader.reads_text s.name).map _) ?_
  refine .cons rfl ((Reader.reads_text s.service).map _) ?_
  refine .cons rfl (s.startTime.reads.map _) ?_
  refine .cons rfl ((reads_end s.endTime).map _) ?_
  exact .cons rfl ((Attributes.reads h hroom).map _) .nil

theorem reads {s : Span} (h : s.WithoutReals) {room : Nat} (hroom : 1 < room) :
    Reads (Span.reader room) s.write s := by
  intro rest hrest
  have hlead : Reader.lead (s.write ++ rest) = .ok (Json.openRecord, s.write ++ rest) :=
    Reader.lead_cons rfl
  have hfields := (gathers_fields h (Nat.sub_ne_zero_of_lt hroom)).reads_members rest hrest
  rw [reader, Reader.structureOf, Reader.bind_ok hlead, if_pos (.inr rfl), if_neg (by omega),
    if_neg (by decide), recordReader, Span.write, Reader.bind_ok hfields]
  rfl

/-- A span is read back from its line. -/
theorem read_write {s : Span} (h : s.WithoutReals) : read s.write = .ok s :=
  (reads h (by decide)).document

/-! ### One line -/

theorem visible_writeOptional {α : Type} {write : α → List UInt8} (h : ∀ x, Json.Visible (write x))
    (o : Option α) : Json.Visible (writeOptional write o) := by
  cases o with
  | none => exact Json.visible_null
  | some x => exact h x

/-- A span is written without control characters. -/
theorem visible_write (s : Span) : Json.Visible s.write := by
  have hident : ∀ {n : Nat} (i : Ident n), Json.Visible i.write := fun i =>
    Json.visible_writeText i.toHex
  have htime : ∀ t : Timestamp, Json.Visible t.write := fun t => Json.visible_writeNat t.nanos.toNat
  refine Json.visible_writeRecord fun f hf => ?_
  simp only [List.mem_cons, List.not_mem_nil, or_false] at hf
  rcases hf with rfl | rfl | rfl | rfl | rfl | rfl | rfl | rfl
  · exact hident s.traceId
  · exact hident s.spanId
  · exact visible_writeOptional hident s.parentSpanId
  · exact Json.visible_writeText s.name
  · exact Json.visible_writeText s.service
  · exact htime s.startTime
  · exact visible_writeOptional htime s.endTime
  · exact s.attributes.visible_write

end Span

namespace Exporter

variable (spans : List Span)

theorem lines_cons (s : Span) : lines (s :: spans) = s.write ++ newline :: lines spans := by
  rw [lines, lines, List.flatMap_cons, List.append_assoc, List.singleton_append]

/-- Within a span there is no line feed. -/
theorem newline_not_mem_write (s : Span) : newline ∉ s.write := by
  intro h
  have hvisible := s.visible_write _ h
  revert hvisible
  decide

/-- There is one line feed for each span. -/
theorem count_lines : (lines spans).count newline = spans.length := by
  induction spans with
  | nil => rfl
  | cons s spans ih =>
    rw [lines_cons, List.count_append, List.count_eq_zero.2 (newline_not_mem_write s),
      List.count_cons_self, ih, Nat.zero_add, List.length_cons]

/-- Cut at the line feeds, the lines are the spans and an empty rest. -/
theorem splitOn_lines : (lines spans).splitOn newline = spans.map Span.write ++ [[]] := by
  induction spans with
  | nil => rfl
  | cons s spans ih =>
    rw [lines_cons, List.splitOn_append_cons_self_of_not_mem (newline_not_mem_write s), ih]
    rfl

variable {spans}

/-- Line by line the spans are read back. -/
theorem mapM_read_write (h : ∀ s ∈ spans, s.WithoutReals) :
    (spans.map Span.write).mapM Span.read = .ok spans := by
  induction spans with
  | nil => rfl
  | cons s spans ih =>
    rw [List.map_cons, List.mapM_cons, Span.read_write (h s List.mem_cons_self),
      ih fun s hs => h s (List.mem_cons_of_mem _ hs)]
    rfl

/-- A span without real numbers is read back from what it is written as; and what is written of
spans has one line for each of them, from which they are read back in their order. -/
theorem lines_read_back :
    (∀ s : Span, s.WithoutReals → Span.read s.write = .ok s) ∧
      ∀ spans : List Span, (∀ s ∈ spans, s.WithoutReals) →
        (lines spans).count newline = spans.length ∧
          (lines spans).splitOn newline = spans.map Span.write ++ [[]] ∧
          (spans.map Span.write).mapM Span.read = .ok spans :=
  ⟨fun _ h => Span.read_write h, fun spans h =>
    ⟨count_lines spans, splitOn_lines spans, mapM_read_write h⟩⟩

/-- A span whose texts have to be escaped, with numbers at their limits. -/
def awkward : Span where
  traceId := ⟨List.replicate 16 0xFF, rfl⟩
  spanId := ⟨List.replicate 8 0, rfl⟩
  parentSpanId := none
  name := "two\nlines \"and\" a \\ \u0001"
  service := "größe"
  startTime := ⟨0xFFFFFFFFFFFFFFFF⟩
  endTime := some ⟨0⟩
  attributes :=
    ⟨[("", .text "\t"), ("least", .int (-0x8000000000000000)), ("ok", .flag false)], by decide⟩

theorem withoutReals_awkward : awkward.WithoutReals := by
  intro e he
  simp only [awkward, List.mem_cons, List.not_mem_nil, or_false] at he
  rcases he with rfl | rfl | rfl <;> simp [AttributeValue.IsReal]

/-- Written twice, it makes two lines, and is read from either. -/
theorem awkward_read_back : awkward.WithoutReals ∧ Span.read awkward.write = .ok awkward ∧
    (lines [awkward, awkward]).count newline = 2 ∧
    [awkward.write, awkward.write].mapM Span.read = .ok [awkward, awkward] := by
  have hall : ∀ s ∈ [awkward, awkward], s.WithoutReals := by
    simpa using withoutReals_awkward
  obtain ⟨hone, hmany⟩ := lines_read_back
  obtain ⟨hcount, -, hread⟩ := hmany [awkward, awkward] hall
  exact ⟨withoutReals_awkward, hone awkward withoutReals_awkward, hcount, hread⟩

end Exporter

end TraceLoad
