import DbosScheduler.Http.Tokens
import DbosScheduler.Http.Turns

namespace DbosScheduler.Http
open Scanner

-- What a session makes of the bytes it gets, said without the parser: it waits in the
-- head or in the body, refuses, or has the request.
inductive Phase where
  | head (draft : Draft)
  | body (line : RequestLine) (headers : List Header) (got : Bytes)
  deriving Repr, DecidableEq

inductive Verdict where
  | waits (phase : Phase)
  | refused
  | request (line : RequestLine) (headers : List Header) (last : Token)
  deriving Repr, DecidableEq

def headSize (line : RequestLine) (headers : List Header) : Nat := (Draft.done line headers).print.length

-- The content length reaches hs_stream_jump as an int.
def bodySize (headers : List Header) : Int := int32 (framing headers).amount

def feedBody (line : RequestLine) (headers : List Header) (got more : Bytes) : Verdict :=
  if more = [] then .waits (.body line headers got)
  else if bodySize headers ≤ (got ++ more).length then
    .request line headers ⟨headSize line headers,bodySize headers,.body⟩
  else .waits (.body line headers (got ++ more))

-- The length of a token is looked at when the bytes run out, and only then.
def feedHead : Draft → Bytes → Verdict
  | draft,[] => if maxTokenLength < draft.pending.len then .refused else .waits (.head draft)
  | draft,c :: rest =>
    match draft.step c with
    | none => .refused
    | some (.done line headers) =>
      if (framing headers).ending (headSize line headers) = .none then feedBody line headers [] rest
      else .request line headers {type:=(framing headers).ending (headSize line headers)}
    | some next => feedHead next rest

def feed : Phase → Bytes → Verdict
  | .head draft,more => feedHead draft more
  | .body line headers got,more => feedBody line headers got more

theorem feedBody_split (line : RequestLine) (headers : List Header) {got first second : Bytes}
    (waiting : feedBody line headers got first = .waits phase) :
    feedBody line headers got (first ++ second) = feed phase second := by
  unfold feedBody at waiting
  split at waiting
  · rename_i nothing
    cases waiting
    rw [nothing,List.nil_append]
    rfl
  · split at waiting
    · cases waiting
    · rename_i some_ short
      cases waiting
      by_cases nothing : second = []
      · rw [nothing,List.append_nil,feedBody,if_neg some_,if_neg short]
        rfl
      · simp [feed,feedBody,nothing,some_]

-- How the bytes are cut into reads makes no difference while nothing has been decided.
theorem feedHead_split (draft : Draft) {first second : Bytes} (waiting : feedHead draft first = .waits phase) :
    feedHead draft (first ++ second) = feed phase second := by
  induction first generalizing draft with
  | nil =>
    rw [feedHead] at waiting
    split at waiting <;> cases waiting
    rfl
  | cons c rest ih =>
    rw [List.cons_append]
    unfold feedHead at waiting ⊢
    split at waiting
    · cases waiting
    · split at waiting
      · rename_i more
        rw [if_pos more]
        exact feedBody_split _ _ waiting
      · cases waiting
    · exact ih _ waiting

theorem feed_split {first second : Bytes} (waiting : feed before first = .waits phase) :
    feed before (first ++ second) = feed phase second := by
  cases before with
  | head draft => exact feedHead_split draft waiting
  | body line headers got => exact feedBody_split line headers waiting

-- What a verdict says about all the bytes it was made from.
def Draft.Open (draft : Draft) : Prop := draft.Good ∧ draft.state ≠ .hn

def Phase.print : Phase → Bytes
  | .head draft => draft.print
  | .body line headers got => (Draft.done line headers).print ++ got

-- Any number of bytes may come before the request is decided: a negative number of the
-- content length decides it at the first one.
structure BodyAhead (line : RequestLine) (headers : List Header) (got : Bytes) : Prop where
  good : (Draft.done line headers).Good
  later : (framing headers).ending (headSize line headers) = .none
  short : got = [] ∨ got.length < bodySize headers

def Phase.Valid : Phase → Prop
  | .head draft => draft.Open ∧ draft.pending.len ≤ maxTokenLength
  | .body line headers got => BodyAhead line headers got

-- The last token of a request with these bytes behind its head.
def Ending (line : RequestLine) (headers : List Header) (rest : Bytes) (last : Token) : Prop :=
  ((framing headers).ending (headSize line headers) ≠ .none ∧
      last = {type:=(framing headers).ending (headSize line headers)}) ∨
    ((framing headers).ending (headSize line headers) = .none ∧ rest ≠ [] ∧ bodySize headers ≤ rest.length ∧
      last = ⟨headSize line headers,bodySize headers,.body⟩)

def Verdict.Says (all : Bytes) : Verdict → Prop
  | .waits phase => phase.Valid ∧ phase.print = all
  | .refused => True
  | .request line headers last => (Draft.done line headers).Good ∧
      ∃ rest, all = (Draft.done line headers).print ++ rest ∧ Ending line headers rest last

end DbosScheduler.Http
