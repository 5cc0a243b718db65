import DockerfileLint.Proofs.IntegerTexts
import DockerfileLint.Service
import Mathlib.Algebra.GroupWithZero.Nat

/-!
# The limit on a body is exact

A body is refused as soon as what has come in exceeds its limit.  What has come in is a
running total, so the refusal depends on the length of the whole body and not on the pieces in
which it comes; a body that is not refused is put together from all of them.  A length that is
declared for it can only refuse it earlier.

* `collectFrom_eq`: the running total against the whole;
* `bodyLimit_cases`: the limit of a path;
* `lt_declaredLength_iff`: which declared lengths exceed a limit;
* `limitBody_cases`: what becomes of a request that has a body;
* `limitBody_exact`: the limit as a whole.
-/

namespace DockerfileLint.Service

variable {limit : Nat} {chunks : List ByteArray} {r : Request}
  {next : Option ByteArray → Response}

/-! ## Putting chunks together -/

/-- The chunks one behind the other. -/
def joined (chunks : List ByteArray) : ByteArray :=
  ⟨(chunks.flatMap fun chunk => chunk.data.toList).toArray⟩

/-- How many bytes chunks hold together. -/
def totalSize (chunks : List ByteArray) : Nat :=
  (chunks.map ByteArray.size).sum

/-- No chunks make an empty body. -/
@[simp] theorem joined_nil : joined [] = ByteArray.empty := rfl

/-- A chunk stands in front of those behind it. -/
theorem joined_cons (chunk : ByteArray) (chunks : List ByteArray) :
    joined (chunk :: chunks) = chunk ++ joined chunks := by
  apply ByteArray.ext
  simp [joined]

/-- A body has as many bytes as its chunks together. -/
theorem joined_size (chunks : List ByteArray) : (joined chunks).size = totalSize chunks := by
  induction chunks with
  | nil => rfl
  | cons chunk chunks ih =>
      rw [joined_cons, ByteArray.size_append, ih]
      rfl

/-- What has come in never exceeds the limit.  As long as it does not, the next chunk takes it
beyond the limit now, or the chunks behind do later, if and only if all of them would. -/
theorem collectFrom_eq {received : ByteArray} (hreceived : received.size ≤ limit)
    (chunks : List ByteArray) :
    collectFrom limit received chunks =
      if limit < received.size + totalSize chunks then none
      else some (received ++ joined chunks) := by
  induction chunks generalizing received with
  | nil =>
      have hnot : ¬limit < received.size + totalSize [] := by
        simpa [totalSize] using hreceived
      rw [collectFrom, if_neg hnot, joined_nil, ByteArray.append_empty]
  | cons chunk chunks ih =>
      have htotal : totalSize (chunk :: chunks) = chunk.size + totalSize chunks := rfl
      rw [collectFrom, htotal]
      by_cases hchunk : limit < received.size + chunk.size
      · rw [if_pos hchunk, if_pos (by omega)]
      · have hsize : (received ++ chunk).size = received.size + chunk.size :=
          ByteArray.size_append
        rw [if_neg hchunk, ih (by omega), hsize, Nat.add_assoc, joined_cons,
          ByteArray.append_assoc]

/-- A body comes in as a whole unless it is longer than the limit. -/
theorem collect_eq (limit : Nat) (chunks : List ByteArray) :
    collect limit chunks =
      if limit < (joined chunks).size then none else some (joined chunks) := by
  unfold collect
  rw [collectFrom_eq (Nat.zero_le limit), ByteArray.empty_append, joined_size]
  simp

/-! ## The limit of a path -/

/-- A word that does not end in a slash ends a text without the slashes at its end if nothing
but slashes stands behind it. -/
theorem suffix_trimEnd_iff {word : List Char} {c : Char} (hlast : word.getLast? = some c)
    (hc : c ≠ '/') (cs : List Char) :
    word <:+ trimEnd (· == '/') cs ↔
      ∃ (front : List Char) (slashes : Nat),
        cs = front ++ word ++ List.replicate slashes '/' := by
  constructor
  · rintro ⟨front, hfront⟩
    obtain ⟨tail, htail, hslashes⟩ := exists_eq_trimEnd_append (· == '/') cs
    have hreplicate : tail = List.replicate tail.length '/' :=
      List.eq_replicate_iff.mpr ⟨rfl, by simpa using hslashes⟩
    exact ⟨front, tail.length, by rw [← hreplicate, hfront, ← htail]⟩
  · rintro ⟨front, slashes, rfl⟩
    obtain ⟨before, rfl⟩ := List.getLast?_eq_some_iff.mp hlast
    refine ⟨front, ?_⟩
    rw [trimEnd_append _ (by simp)]
    simp [trimEnd, hc]

/-- A path leads to the validation of documents if slashes at most stand behind its last
step, which is that of the validation. -/
def LeadsToValidation (path : String) : Prop :=
  ∃ (front : List Char) (slashes : Nat),
    path.toList = front ++ "/validate".toList ++ List.replicate slashes '/'

/-- The slashes are taken off before the last step is looked at. -/
theorem isSuffixOf_withoutSlashes (path : String) :
    "/validate".toList.isSuffixOf (withoutSlashes path).toList = true ↔
      LeadsToValidation path := by
  have hlast : "/validate".toList.getLast? = some 'e' := by
    decide
  have hpath : (withoutSlashes path).toList = trimEnd (· == '/') path.toList :=
    String.toList_ofList
  rw [hpath, List.isSuffixOf_iff_suffix]
  exact suffix_trimEnd_iff hlast (by decide) _

/-- A body for the validation of documents has five mebibytes, any other body one. -/
theorem bodyLimit_cases (path : String) :
    (LeadsToValidation path → bodyLimit path = 5 * 1024 * 1024) ∧
      (¬LeadsToValidation path → bodyLimit path = 1 * 1024 * 1024) := by
  have hsuffix := isSuffixOf_withoutSlashes path
  constructor
  · intro h
    exact if_pos (hsuffix.mpr h)
  · intro h
    exact if_neg (mt hsuffix.mp h)

/-! ## The declared length -/

/-- A declared length exceeds a limit if it is an integer that does; what is no integer counts
as a negative one. -/
theorem lt_declaredLength_iff (value : String) :
    (limit : Int) < declaredLength value ↔
      ∃ n : Int, WritesInteger value.toList n ∧ (limit : Int) < n := by
  unfold declaredLength
  cases hn : integerValue? value.toList with
  | none =>
      constructor
      · intro h
        rw [Option.getD_none] at h
        omega
      · rintro ⟨n, hwrites, -⟩
        rw [integerValue?_eq_some_iff.mpr hwrites] at hn
        cases hn
  | some n =>
      constructor
      · intro h
        exact ⟨n, integerValue?_eq_some_iff.mp hn, h⟩
      · rintro ⟨m, hwrites, hlt⟩
        have hm : integerValue? value.toList = some m := integerValue?_eq_some_iff.mpr hwrites
        obtain rfl : m = n := Option.some.inj (hm.symm.trans hn)
        exact hlt

/-! ## What becomes of a request -/

/-- The body of a request is declared to be too long, or it is. -/
def Request.Oversized (r : Request) (limit : Nat) : Prop :=
  (∃ (value : String) (n : Int), r.header "content-length" = some value ∧
      WritesInteger value.toList n ∧ (limit : Int) < n) ∨
    limit < totalSize r.chunks

/-- A body that neither is too long nor is declared to be is not oversized. -/
theorem Request.not_oversized (htotal : totalSize r.chunks ≤ limit)
    (hdeclared : ∀ (value : String) (n : Int), r.header "content-length" = some value →
      WritesInteger value.toList n → n ≤ limit) : ¬r.Oversized limit := by
  rintro (⟨value, n, hvalue, hwrites, hlt⟩ | hlt)
  · have hle := hdeclared value n hvalue hwrites
    omega
  · omega

/-- The header of a request declares a length above a limit. -/
theorem any_lt_declaredLength_iff (r : Request) (limit : Nat) :
    ((r.header "content-length").any fun value => (limit : Int) < declaredLength value) = true ↔
      ∃ (value : String) (n : Int), r.header "content-length" = some value ∧
        WritesInteger value.toList n ∧ (limit : Int) < n := by
  simp only [Option.any_eq_true, decide_eq_true_eq, lt_declaredLength_iff, exists_and_left]

/-- A request that has a body is refused if the body is too long, and handed on with all of it
otherwise. -/
theorem limitBody_cases (hmethod : r.method ∈ bodyMethods) (next : Option ByteArray → Response) :
    (r.Oversized (bodyLimit r.path) →
        limitBody r next = bodyTooLarge (bodyLimit r.path)) ∧
      (¬r.Oversized (bodyLimit r.path) →
        limitBody r next = next (some (joined r.chunks))) := by
  have hheader := any_lt_declaredLength_iff r (bodyLimit r.path)
  have hcollect := collect_eq (bodyLimit r.path) r.chunks
  rw [joined_size] at hcollect
  unfold limitBody
  simp only [hmethod, if_true]
  constructor
  · rintro (hdeclared | htotal)
    · rw [if_pos (hheader.mpr hdeclared)]
    · rw [hcollect, if_pos htotal]
      split <;> rfl
  · intro h
    rw [if_neg fun hdeclared => h (.inl (hheader.mp hdeclared)), hcollect,
      if_neg fun htotal => h (.inr htotal)]

/-- What becomes of a request depends on the bytes of its body and not on the chunks. -/
theorem limitBody_congr (r : Request) (next : Option ByteArray → Response)
    {chunks : List ByteArray} (h : joined chunks = joined r.chunks) :
    limitBody { r with chunks } next = limitBody r next := by
  unfold limitBody
  simp only [collect_eq, h]

/-- The refusal of a body says how long it may be. -/
theorem bodyTooLarge_bodyLimit (path : String) :
    (LeadsToValidation path → bodyTooLarge (bodyLimit path) =
        { status := 413
          body := some (.object [("detail",
            .string "Request body too large (max 5 MB)")]) }) ∧
      (¬LeadsToValidation path → bodyTooLarge (bodyLimit path) =
        { status := 413
          body := some (.object [("detail",
            .string "Request body too large (max 1 MB)")]) }) := by
  obtain ⟨hvalidation, hother⟩ := bodyLimit_cases path
  have hfive : "Request body too large (max " ++ toString (5 * 1024 * 1024 / mebibyte) ++ " MB)" =
      "Request body too large (max 5 MB)" := by
    decide +kernel
  have hone : "Request body too large (max " ++ toString (1 * 1024 * 1024 / mebibyte) ++ " MB)" =
      "Request body too large (max 1 MB)" := by
    decide +kernel
  unfold bodyTooLarge Response.explain
  constructor
  · intro h
    rw [hvalidation h, hfive]
  · intro h
    rw [hother h, hone]

/-- **The limit on a body is exact.**  A request with one of the methods that have a body has
five mebibytes for it if its path, less the slashes at its end, ends in that of the
validation, and one mebibyte otherwise.  It is refused, with status 413 and the limit in words,
if the declared length is an integer above the limit or the chunks hold more bytes than the
limit; otherwise exactly the chunks one behind the other are handed on.  So where nothing else
answers with this status, the status tells the two apart.  Other chunks of the same bytes
change nothing, and no header lets a body through that is too long. -/
theorem limitBody_exact (r : Request) (next : Option ByteArray → Response)
    (hmethod : r.method ∈ ["POST", "PUT", "PATCH"]) :
    ∃ (limit : Nat) (refusal : Response),
      (LeadsToValidation r.path →
        limit = 5 * 1024 * 1024 ∧
          refusal =
            { status := 413
              body := some (.object [("detail",
                .string "Request body too large (max 5 MB)")]) }) ∧
      (¬LeadsToValidation r.path →
        limit = 1 * 1024 * 1024 ∧
          refusal =
            { status := 413
              body := some (.object [("detail",
                .string "Request body too large (max 1 MB)")]) }) ∧
      (r.Oversized limit → limitBody r next = refusal) ∧
      (¬r.Oversized limit → limitBody r next = next (some (joined r.chunks))) ∧
      ((∀ body, (next body).status ≠ 413) →
        ((limitBody r next).status = 413 ↔ r.Oversized limit)) ∧
      (∀ chunks, joined chunks = joined r.chunks →
        limitBody { r with chunks } next = limitBody r next) ∧
      (limit < totalSize r.chunks → ∀ header,
        limitBody { r with header } next = refusal) := by
  obtain ⟨hvalidation, hother⟩ := bodyLimit_cases r.path
  obtain ⟨hfive, hone⟩ := bodyTooLarge_bodyLimit r.path
  obtain ⟨hrefused, htaken⟩ := limitBody_cases hmethod next
  refine ⟨bodyLimit r.path, bodyTooLarge (bodyLimit r.path), fun h => ⟨hvalidation h, hfive h⟩,
    fun h => ⟨hother h, hone h⟩, hrefused, htaken, ?_, fun chunks => limitBody_congr r next, ?_⟩
  · intro hnext
    refine ⟨fun hstatus => ?_, fun h => by rw [hrefused h]; rfl⟩
    apply Classical.byContradiction
    intro hfits
    rw [htaken hfits] at hstatus
    exact hnext _ hstatus
  · intro htotal header
    exact (limitBody_cases (r := { r with header }) hmethod next).1 (.inr htotal)

/-- A body of one byte too many in two chunks, declared to be a single byte. -/
def understated : Request where
  method := "PUT"
  path := "/keywords/validate-not//"
  header name := if name = "content-length" then some " +1 " else none
  chunks := [⟨Array.replicate (1024 * 1024) 32⟩, ⟨#[10]⟩]

/-- A short body, declared to be of some length. -/
def declaring (value : String) : Request where
  method := "POST"
  path := "/x/validate//"
  header name := if name = "content-length" then some value else none
  chunks := [⟨#[123]⟩, ⟨#[125]⟩]

/-- A handler that answers with the size of the body. -/
def sizeOnly (body : Option ByteArray) : Response where
  status := 200
  body := body.map fun bytes => .int bytes.size

/-- `understated` is refused, and so are its bytes in any other chunks.  A declared length is
taken as an integer with white space of any kind around it, a sign and underscores, and refused
from the first byte above the limit on; one that is no integer changes nothing. -/
theorem limitBody_exact_understated :
    understated.method ∈ ["POST", "PUT", "PATCH"] ∧
      (∀ chunks, joined chunks = joined understated.chunks →
        limitBody { understated with chunks } sizeOnly =
          { status := 413
            body := some (.object [("detail",
              .string "Request body too large (max 1 MB)")]) }) ∧
      limitBody (declaring "\u00a0+5_242_881\u0085") sizeOnly =
        { status := 413
          body := some (.object [("detail",
            .string "Request body too large (max 5 MB)")]) } ∧
      limitBody (declaring "5_242_880") sizeOnly = { status := 200, body := some (.int 2) } ∧
      limitBody (declaring "5242881 bytes") sizeOnly =
        { status := 200, body := some (.int 2) } := by
  have hunderstated : understated.method ∈ ["POST", "PUT", "PATCH"] := by
    decide
  have hplace : ¬LeadsToValidation understated.path :=
    mt (isSuffixOf_withoutSlashes understated.path).mpr (by decide +kernel)
  have htotal : 1 * 1024 * 1024 < totalSize understated.chunks := by
    simp [understated, totalSize, ByteArray.size]
  obtain ⟨limit, refusal, -, hone, hrefused, -, -, hchunks, -⟩ :=
    limitBody_exact understated sizeOnly hunderstated
  obtain ⟨rfl, rfl⟩ := hone hplace
  have hvalidation : LeadsToValidation "/x/validate//" :=
    (isSuffixOf_withoutSlashes "/x/validate//").mp (by decide +kernel)
  have htaken : ∀ value : String,
      (∀ n, integerValue? value.toList = some n → n ≤ (5 * 1024 * 1024 : Nat)) →
        limitBody (declaring value) sizeOnly = { status := 200, body := some (.int 2) } := by
    intro value hvalue
    obtain ⟨limit, refusal, hfive, -, -, htaken, -⟩ :=
      limitBody_exact (declaring value) sizeOnly (by simp [declaring])
    obtain ⟨rfl, rfl⟩ := hfive hvalidation
    refine htaken (Request.not_oversized ?_ ?_)
    · simp [declaring, totalSize, ByteArray.size]
    · intro value' n hheader hwrites
      obtain rfl : value = value' := Option.some.inj hheader
      exact hvalue n (integerValue?_eq_some_iff.mpr hwrites)
  refine ⟨hunderstated, fun chunks hsame => (hchunks chunks hsame).trans
    (hrefused (.inr htotal)), ?_, htaken _ ?_, htaken _ ?_⟩
  · obtain ⟨limit, refusal, hfive, -, hrefused, -⟩ :=
      limitBody_exact (declaring "\u00a0+5_242_881\u0085") sizeOnly (by decide)
    obtain ⟨rfl, rfl⟩ := hfive hvalidation
    have hwrites : WritesInteger "\u00a0+5_242_881\u0085".toList 5242881 :=
      integerValue?_eq_some_iff.mp (by decide +kernel)
    exact hrefused (.inl ⟨_, 5242881, rfl, hwrites, by decide⟩)
  · have hvalue : integerValue? "5_242_880".toList = some 5242880 := by
      decide +kernel
    intro n hn
    obtain rfl : 5242880 = n := Option.some.inj (hvalue.symm.trans hn)
    decide
  · have hvalue : integerValue? "5242881 bytes".toList = none := by
      decide +kernel
    intro n hn
    rw [hvalue] at hn
    cases hn

end DockerfileLint.Service
