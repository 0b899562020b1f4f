import DbosScheduler.Lib.Scanner
import DbosScheduler.Http.Parser

namespace DbosScheduler.Http
open Scanner

-- What a request head is for this server. The characters of each part are given by
-- their types in hs_ctype.
def CharType.token : CharType → Bool
  | .digit | .hex | .alpha | .tchar => true
  | _ => false

def CharType.visible : CharType → Bool
  | .digit | .hex | .alpha | .tchar | .vchar => true
  | _ => false

def CharType.methodStart : CharType → Bool
  | .hex | .alpha | .tchar => true
  | _ => false

def CharType.inTarget : CharType → Bool
  | .coln | .scoln => true
  | type => type.visible

def CharType.blank : CharType → Bool
  | .spc | .nl | .cr | .tab => true
  | _ => false

def CharType.inValue : CharType → Bool
  | .spc | .tab => true
  | type => type.inTarget

-- A word has a first character; the others may be of more types.
def Word (first rest : CharType → Bool) : Bytes → Prop
  | [] => False
  | c :: others => first (charType c) = true ∧ ∀ d ∈ others, rest (charType d) = true

instance (first rest : CharType → Bool) : (word : Bytes) → Decidable (Word first rest word)
  | [] => .isFalse id
  | _ :: _ => inferInstanceAs (Decidable (_ ∧ _))

structure RequestLine where
  method : Bytes
  target : Bytes
  version : Bytes
  deriving Repr, DecidableEq

-- `gap` is what stands between the colon and the value. The parser skips line ends there
-- too: a header without a value takes the next line for its value.
structure Header where
  key : Bytes
  gap : Bytes
  value : Bytes
  deriving Repr, DecidableEq

def RequestLine.Good (line : RequestLine) : Prop :=
  Word CharType.methodStart CharType.token line.method ∧ Word CharType.visible CharType.inTarget line.target ∧
    Word CharType.visible CharType.visible line.version

def GoodKey (key : Bytes) : Prop := Word CharType.token CharType.token key
def GoodGap (gap : Bytes) : Prop := ∀ c ∈ gap, (charType c).blank = true

def Header.Good (header : Header) : Prop :=
  GoodKey header.key ∧ GoodGap header.gap ∧ Word CharType.inTarget CharType.inValue header.value

instance (line : RequestLine) : Decidable line.Good := inferInstanceAs (Decidable (_ ∧ _ ∧ _))
instance (gap : Bytes) : Decidable (GoodGap gap) := inferInstanceAs (Decidable (∀ c ∈ gap, _))
instance (header : Header) : Decidable header.Good :=
  inferInstanceAs (Decidable (Word _ _ header.key ∧ GoodGap header.gap ∧ _))

def RequestLine.print (line : RequestLine) : Bytes := line.method ++ 32 :: (line.target ++ 32 :: line.version)
def Header.print (header : Header) : Bytes := header.key ++ 58 :: (header.gap ++ header.value)

-- The request line and the first headers, each with its line end.
def printLines (line : RequestLine) (headers : List Header) : Bytes :=
  line.print ++ [13,10] ++ headers.flatMap fun header => header.print ++ [13,10]

-- A head that a request may have: there is at least one header and at most 127 of them.
structure Head where
  line : RequestLine
  headers : List Header
  lineGood : line.Good
  headersGood : ∀ header ∈ headers, header.Good
  some : headers ≠ []
  count : headers.length ≤ 127

def Head.print (head : Head) : Bytes := printLines head.line head.headers ++ [13,10]

-- The head as far as it has been read, one form for each state of the parser.
inductive Draft where
  | start
  | inMethod (method : Bytes)
  | afterMethod (method : Bytes)
  | inTarget (method target : Bytes)
  | afterTarget (method target : Bytes)
  | inVersion (line : RequestLine)
  | lineCr (line : RequestLine)
  | lineLf (line : RequestLine)
  | inKey (line : RequestLine) (headers : List Header) (key : Bytes)
  | inGap (line : RequestLine) (headers : List Header) (key gap : Bytes)
  | inValue (line : RequestLine) (headers : List Header) (header : Header)
  | valueCr (line : RequestLine) (headers : List Header) (header : Header)
  | valueLf (line : RequestLine) (headers : List Header)
  | endCr (line : RequestLine) (headers : List Header)
  | done (line : RequestLine) (headers : List Header)
  deriving Repr, DecidableEq

def Draft.state : Draft → State
  | .start => .st
  | .inMethod _ => .mt
  | .afterMethod _ => .ms
  | .inTarget _ _ => .tr
  | .afterTarget _ _ => .ts
  | .inVersion _ => .vn
  | .lineCr _ => .rr
  | .lineLf _ => .rn
  | .inKey _ _ _ => .hk
  | .inGap _ _ _ _ => .hs
  | .inValue _ _ _ => .hv
  | .valueCr _ _ _ => .hr
  | .valueLf _ _ => .he
  | .endCr _ _ => .er
  | .done _ _ => .hn

def Draft.print : Draft → Bytes
  | .start => []
  | .inMethod method => method
  | .afterMethod method => method ++ [32]
  | .inTarget method target => method ++ 32 :: target
  | .afterTarget method target => method ++ 32 :: (target ++ [32])
  | .inVersion line => line.print
  | .lineCr line => line.print ++ [13]
  | .lineLf line => line.print ++ [13,10]
  | .inKey line headers key => printLines line headers ++ key
  | .inGap line headers key gap => printLines line headers ++ (key ++ 58 :: gap)
  | .inValue line headers header => printLines line headers ++ header.print
  | .valueCr line headers header => printLines line headers ++ (header.print ++ [13])
  | .valueLf line headers => printLines line headers
  | .endCr line headers => printLines line headers ++ [13]
  | .done line headers => printLines line headers ++ [13,10]

def GoodLines (line : RequestLine) (headers : List Header) (limit : Nat) : Prop :=
  line.Good ∧ (∀ header ∈ headers, header.Good) ∧ headers.length ≤ limit

def Draft.Good : Draft → Prop
  | .start => True
  | .inMethod method | .afterMethod method => Word CharType.methodStart CharType.token method
  | .inTarget method target | .afterTarget method target =>
    Word CharType.methodStart CharType.token method ∧ Word CharType.visible CharType.inTarget target
  | .inVersion line | .lineCr line | .lineLf line => line.Good
  | .inKey line headers key => GoodLines line headers 126 ∧ GoodKey key
  | .inGap line headers key gap => GoodLines line headers 126 ∧ GoodKey key ∧ GoodGap gap
  | .inValue line headers header | .valueCr line headers header => GoodLines line headers 126 ∧ header.Good
  | .valueLf line headers | .endCr line headers | .done line headers =>
    GoodLines line headers 127 ∧ headers ≠ []

def Draft.startKey (line : RequestLine) (headers : List Header) (c : UInt8) : Option Draft :=
  if (charType c).token ∧ headers.length < 127 then some (.inKey line headers [c]) else none

-- The grammar as a scanner.
def Draft.step : Draft → UInt8 → Option Draft
  | .start,c => if (charType c).methodStart then some (.inMethod [c]) else none
  | .inMethod method,c =>
    if c = 32 then some (.afterMethod method)
    else if (charType c).token then some (.inMethod (method ++ [c])) else none
  | .afterMethod method,c => if (charType c).visible then some (.inTarget method [c]) else none
  | .inTarget method target,c =>
    if c = 32 then some (.afterTarget method target)
    else if (charType c).inTarget then some (.inTarget method (target ++ [c])) else none
  | .afterTarget method target,c => if (charType c).visible then some (.inVersion ⟨method,target,[c]⟩) else none
  | .inVersion line,c =>
    if c = 13 then some (.lineCr line)
    else if (charType c).visible then some (.inVersion {line with version:=line.version ++ [c]}) else none
  | .lineCr line,c => if c = 10 then some (.lineLf line) else none
  | .lineLf line,c => Draft.startKey line [] c
  | .inKey line headers key,c =>
    if c = 58 then some (.inGap line headers key [])
    else if (charType c).token then some (.inKey line headers (key ++ [c])) else none
  | .inGap line headers key gap,c =>
    if (charType c).blank then some (.inGap line headers key (gap ++ [c]))
    else if (charType c).inTarget then some (.inValue line headers ⟨key,gap,[c]⟩) else none
  | .inValue line headers header,c =>
    if c = 13 then some (.valueCr line headers header)
    else if (charType c).inValue then some (.inValue line headers {header with value:=header.value ++ [c]}) else none
  | .valueCr line headers header,c => if c = 10 then some (.valueLf line (headers ++ [header])) else none
  | .valueLf line headers,c => if c = 13 then some (.endCr line headers) else Draft.startKey line headers c
  | .endCr line headers,c => if c = 10 then some (.done line headers) else none
  | .done _ _,_ => none

variable {first rest : CharType → Bool} {word : Bytes} {c : UInt8}

theorem Word.snoc (good : Word first rest word) (more : rest (charType c) = true) : Word first rest (word ++ [c]) := by
  cases word with
  | nil => exact good.elim
  | cons d others =>
    refine ⟨good.1,?_⟩
    intro e member
    rcases List.mem_append.mp member with old | new
    · exact good.2 e old
    · rw [List.mem_singleton.mp new]
      exact more

theorem Word.single (good : first (charType c) = true) : Word first rest [c] := ⟨good,by simp⟩

theorem GoodGap.snoc {gap : Bytes} (good : GoodGap gap) (more : (charType c).blank = true) : GoodGap (gap ++ [c]) := by
  intro d member
  rcases List.mem_append.mp member with old | new
  · exact good d old
  · rw [List.mem_singleton.mp new]
    exact more

variable {line : RequestLine} {headers : List Header} {header : Header}

theorem printLines_snoc : printLines line (headers ++ [header]) = printLines line headers ++ (header.print ++ [13,10]) := by
  simp [printLines]

theorem GoodLines.snoc (good : GoodLines line headers 126) (more : header.Good) :
    GoodLines line (headers ++ [header]) 127 := by
  refine ⟨good.1,?_,?_⟩
  · intro other member
    rcases List.mem_append.mp member with old | new
    · exact good.2.1 other old
    · rw [List.mem_singleton.mp new]
      exact more
  · have short := good.2.2
    rw [List.length_append,List.length_singleton]
    omega

-- One step reads one character.
theorem startKey_forward (good : GoodLines line headers 127) (stepped : Draft.startKey line headers c = some next) :
    next.Good ∧ next.print = printLines line headers ++ [c] := by
  unfold Draft.startKey at stepped
  split at stepped
  · rename_i allowed
    cases stepped
    exact ⟨⟨⟨good.1,good.2.1,Nat.le_of_lt_succ allowed.2⟩,.single allowed.1⟩,rfl⟩
  · cases stepped

theorem step_forward (draft : Draft) (c : UInt8) (next : Draft) (good : draft.Good) (stepped : draft.step c = some next) :
    next.Good ∧ next.print = draft.print ++ [c] := by
  cases draft with
  | start =>
    simp only [Draft.step] at stepped
    split at stepped <;> cases stepped
    exact ⟨.single ‹_›,rfl⟩
  | inMethod method =>
    simp only [Draft.step] at stepped
    split at stepped
    · cases stepped
      rename_i same
      exact ⟨good,by rw [same]; rfl⟩
    · split at stepped <;> cases stepped
      exact ⟨good.snoc ‹_›,rfl⟩
  | afterMethod method =>
    simp only [Draft.step] at stepped
    split at stepped <;> cases stepped
    exact ⟨⟨good,.single ‹_›⟩,by simp [Draft.print]⟩
  | inTarget method target =>
    simp only [Draft.step] at stepped
    split at stepped
    · cases stepped
      rename_i same
      exact ⟨good,by simp [Draft.print,same]⟩
    · split at stepped <;> cases stepped
      exact ⟨⟨good.1,good.2.snoc ‹_›⟩,by simp [Draft.print]⟩
  | afterTarget method target =>
    simp only [Draft.step] at stepped
    split at stepped <;> cases stepped
    exact ⟨⟨good.1,good.2,.single ‹_›⟩,by simp [Draft.print,RequestLine.print]⟩
  | inVersion line =>
    simp only [Draft.step] at stepped
    split at stepped
    · cases stepped
      rename_i same
      exact ⟨good,by rw [same]; rfl⟩
    · split at stepped <;> cases stepped
      exact ⟨⟨good.1,good.2.1,good.2.2.snoc ‹_›⟩,by simp [Draft.print,RequestLine.print]⟩
  | lineCr line =>
    simp only [Draft.step] at stepped
    split at stepped <;> cases stepped
    rename_i same
    exact ⟨good,by simp [Draft.print,same]⟩
  | lineLf line =>
    have lines : GoodLines line [] 127 := ⟨good,by simp,by simp⟩
    obtain ⟨after,printed⟩ := startKey_forward lines stepped
    exact ⟨after,by rw [printed]; simp [Draft.print,printLines]⟩
  | inKey line headers key =>
    simp only [Draft.step] at stepped
    split at stepped
    · cases stepped
      rename_i same
      exact ⟨⟨good.1,good.2,by simp [GoodGap]⟩,by simp [Draft.print,same]⟩
    · split at stepped <;> cases stepped
      exact ⟨⟨good.1,Word.snoc good.2 ‹_›⟩,by simp [Draft.print]⟩
  | inGap line headers key gap =>
    simp only [Draft.step] at stepped
    split at stepped
    · cases stepped
      exact ⟨⟨good.1,good.2.1,good.2.2.snoc ‹_›⟩,by simp [Draft.print]⟩
    · split at stepped <;> cases stepped
      exact ⟨⟨good.1,good.2.1,good.2.2,.single ‹_›⟩,by simp [Draft.print,Header.print]⟩
  | inValue line headers header =>
    simp only [Draft.step] at stepped
    split at stepped
    · cases stepped
      rename_i same
      exact ⟨good,by simp [Draft.print,same]⟩
    · split at stepped <;> cases stepped
      exact ⟨⟨good.1,good.2.1,good.2.2.1,good.2.2.2.snoc ‹_›⟩,by simp [Draft.print,Header.print]⟩
  | valueCr line headers header =>
    simp only [Draft.step] at stepped
    split at stepped <;> cases stepped
    rename_i same
    exact ⟨⟨good.1.snoc good.2,by simp⟩,by simp [Draft.print,printLines_snoc,same]⟩
  | valueLf line headers =>
    simp only [Draft.step] at stepped
    split at stepped
    · cases stepped
      rename_i same
      exact ⟨good,by simp [Draft.print,same]⟩
    · exact startKey_forward good.1 stepped
  | endCr line headers =>
    simp only [Draft.step] at stepped
    split at stepped <;> cases stepped
    rename_i same
    exact ⟨good,by simp [Draft.print,same]⟩
  | done line headers => cases stepped

end DbosScheduler.Http
