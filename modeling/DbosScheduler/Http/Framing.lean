import Mathlib.Data.List.GetD
import DbosScheduler.Http.Head

namespace DbosScheduler.Http

-- How the headers read so far say where the body ends.
inductive Framing where
  | undecided
  | length (contentLength : Int)
  | chunked
  deriving Repr, DecidableEq

def lowered (word : Bytes) : Bytes := word.map lower

def transferEncoding : Bytes := bytes "transfer-encoding"

-- The three letters behind "content-length" are the last ones of "transfer-encoding":
-- HS_MATCH goes on comparing with these.
def contentLengthing : Bytes := bytes "content-lengthing"

-- The names that stand for the two headers: any beginning of them will do.
def NamesTransferEncoding (key : Bytes) : Prop := key ≠ [] ∧ lowered key <+: transferEncoding
def NamesContentLength (key : Bytes) : Prop := key ≠ [] ∧ lowered key <+: contentLengthing
def NamesChunked (value : Bytes) : Prop := lowered value <+: bytes "chunked"

instance (key : Bytes) : Decidable (NamesTransferEncoding key) := inferInstanceAs (Decidable (_ ∧ _))
instance (key : Bytes) : Decidable (NamesContentLength key) := inferInstanceAs (Decidable (_ ∧ _))
instance (value : Bytes) : Decidable (NamesChunked value) := inferInstanceAs (Decidable (_ <+: _))

-- The number that a value stands for; nothing checks that it has only digits.
def decimal (value : Bytes) : Int := value.foldl (fun n c => int64 (n*10+(c.toNat-48))) 0

def Framing.next (framing : Framing) (header : Header) : Framing :=
  match framing with
  | .undecided =>
    if NamesTransferEncoding header.key then (if NamesChunked header.value then .chunked else .undecided)
    else if NamesContentLength header.key then .length (decimal header.value)
    else .undecided
  | decided => decided

def framing (headers : List Header) : Framing := headers.foldl Framing.next .undecided

@[simp] theorem framing_nil : framing [] = .undecided := rfl

-- The meta states of the parser between two headers, in a key, before and in a value.
def Framing.settled : Framing → Meta
  | .undecided => .any
  | .length _ => .sml
  | .chunked => .chk

def Framing.inKey (framing : Framing) (key : Bytes) : Meta :=
  match framing with
  | .undecided =>
    if key = [] then .any
    else if NamesTransferEncoding key then .mte
    else if NamesContentLength key then .mcl
    else .wfk
  | decided => decided.settled

def Framing.inGap (framing : Framing) (key : Bytes) : Meta :=
  match framing with
  | .undecided => if NamesTransferEncoding key then .mck else if NamesContentLength key then .clv else .wfk
  | decided => decided.settled

def Framing.inValue (framing : Framing) (header : Header) : Meta :=
  match framing with
  | .undecided =>
    if NamesTransferEncoding header.key then (if NamesChunked header.value then .mck else .wfk)
    else if NamesContentLength header.key then .clv
    else .wfk
  | decided => decided.settled

-- The content length while a value is read, and between headers.
def Framing.amount : Framing → Int
  | .length contentLength => contentLength
  | _ => 0

def Framing.reading (framing : Framing) (header : Header) : Int :=
  match framing with
  | .undecided =>
    if NamesTransferEncoding header.key then 0
    else if NamesContentLength header.key then decimal header.value
    else 0
  | decided => decided.amount

theorem prefix_snoc_iff {word text : Bytes} {c : UInt8} :
    word ++ [c] <+: text ↔ word <+: text ∧ text[word.length]? = some c := by
  constructor
  · rintro ⟨rest,rfl⟩
    refine ⟨⟨c :: rest,by simp⟩,by simp⟩
  · rintro ⟨⟨rest,rfl⟩,at_end⟩
    rw [List.getElem?_append_right (Nat.le_refl _),Nat.sub_self] at at_end
    cases rest with
    | nil => cases at_end
    | cons d others =>
      cases at_end
      exact ⟨others,by simp⟩

theorem lowered_snoc : lowered (word ++ [c]) = lowered word ++ [lower c] := by simp [lowered]

theorem lowered_length (word : Bytes) : (lowered word).length = word.length := List.length_map _

-- The comparison with one character of a text, where behind the text stands a zero.
theorem prefix_goes_on {text : Bytes} (solid : lower c ≠ 0) :
    lowered (word ++ [c]) <+: text ↔ lowered word <+: text ∧ lower c = text.getD word.length 0 := by
  rw [lowered_snoc,prefix_snoc_iff,lowered_length]
  refine and_congr_right fun _ => ?_
  rw [List.getD_eq_getElem?_getD]
  cases text[word.length]? with
  | none => simp [solid]
  | some d => simp [eq_comm]

variable {framing : Framing} {key : Bytes} {p : Parser}

theorem names_te_snoc (solid : lower c ≠ 0) : NamesTransferEncoding (key ++ [c]) ↔
    (key = [] ∨ NamesTransferEncoding key) ∧ lower c = transferEncoding.getD key.length 0 := by
  rw [NamesTransferEncoding,prefix_goes_on solid,NamesTransferEncoding]
  by_cases empty : key = []
  · simp [empty,lowered]
  · simp [empty]

theorem names_cl_snoc (solid : lower c ≠ 0) : NamesContentLength (key ++ [c]) ↔
    (key = [] ∨ NamesContentLength key) ∧ lower c = contentLengthing.getD key.length 0 := by
  rw [NamesContentLength,prefix_goes_on solid,NamesContentLength]
  by_cases empty : key = []
  · simp [empty,lowered]
  · simp [empty]

-- While a name may still become one of the two, match_index counts its characters.
def Framing.Matching (framing : Framing) (key : Bytes) : Prop :=
  framing = .undecided ∧ (key = [] ∨ NamesTransferEncoding key ∨ NamesContentLength key)

theorem Framing.Matching.short (matching : framing.Matching key) : key.length ≤ 17 := by
  rcases matching.2 with rfl | ⟨_,within⟩ | ⟨_,within⟩
  · simp
  · have bound := within.length_le
    rw [lowered_length] at bound
    exact Nat.le_trans bound (by decide)
  · have bound := within.length_le
    rw [lowered_length] at bound
    exact Nat.le_trans bound (by decide)

theorem Framing.Matching.earlier (solid : lower c ≠ 0) (matching : framing.Matching (key ++ [c])) :
    framing.Matching key := by
  obtain ⟨open_,empty | names | names⟩ := matching
  · simp at empty
  · rcases ((names_te_snoc solid).mp names).1 with empty | before
    · exact ⟨open_,.inl empty⟩
    · exact ⟨open_,.inr (.inl before)⟩
  · rcases ((names_cl_snoc solid).mp names).1 with empty | before
    · exact ⟨open_,.inl empty⟩
    · exact ⟨open_,.inr (.inr before)⟩

def Header.snoc (header : Header) (c : UInt8) : Header := {header with value:=header.value ++ [c]}

end DbosScheduler.Http
