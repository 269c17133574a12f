import UploadService.Release.Store
import UploadService.Texts

/-!
# Enforcement of regulations

`RegulationEnforcementService.enforce`: the verdict on the value of a regulation. The value of a
JUnit regulation is the id of an artifact; its file is a JUnit report, and the regulation asks for
a share of passed tests. What passed is what the attributes of the root leave of the tests once
the failures and the skipped ones are taken away.

Main result: `enforce_junit_iff`, when a verdict of true means that the share of test cases that
passed is the one asked for.
-/

namespace UploadService

/-- An element of an XML document. -/
inductive XmlElement where
  | mk (name : String) (attributes : List (String × String)) (children : List XmlElement)

namespace XmlElement

def name : XmlElement → String
  | mk name _ _ => name

def attributes : XmlElement → List (String × String)
  | mk _ attributes _ => attributes

def children : XmlElement → List XmlElement
  | mk _ _ children => children

mutual

/-- The element and all below it. -/
def elements : XmlElement → List XmlElement
  | mk name attributes children => mk name attributes children :: elementsOf children

def elementsOf : List XmlElement → List XmlElement
  | [] => []
  | e :: es => elements e ++ elementsOf es

end

def hasChild (e : XmlElement) (tag : String) : Bool := e.children.any fun child => child.name == tag

end XmlElement

/-- The parser: the root of the document of a text. An element that has neither attributes nor
elements below it becomes a text, and no object. -/
structure XMLParser where
  parse : String → Except String XmlElement

/-- `parsedData.testsuites`, where it is an object. -/
def XmlElement.testsuites? (root : XmlElement) : Option XmlElement :=
  if root.name = "testsuites" ∧ ¬ (root.attributes = [] ∧ root.children.isEmpty) then some root
  else none

namespace JUnitParserService

/-- `none` is NaN; the integers are exact. -/
structure Summary where
  total : Option ℤ
  passed : Option ℤ
  failed : Option ℤ
  skipped : Option ℤ
  deriving DecidableEq, Repr

/-- `parseInt(testSuite['@_name'] || '0', 10)`. -/
def count (testSuite : XmlElement) (name : String) : Option ℤ :=
  match ObjectMap.get? testSuite.attributes name with
  | none => parseInt? "0"
  | some text => parseInt? (if text = "" then "0" else text)

def extractSummary (xmlParser : XMLParser) (xmlContent : String) : Except Exception Summary :=
  if xmlContent = "" then .error (.badRequest "JUnit XML content is required")
  else
    match xmlParser.parse xmlContent with
    | .error message => .error (.badRequest s!"Error parsing JUnit XML: {message}")
    | .ok parsedData =>
        match parsedData.testsuites? with
        | none => .error (.badRequest "Error parsing JUnit XML: Invalid JUnit XML format")
        | some testSuite =>
            let totalTests := count testSuite "tests"
            let failedTests := count testSuite "failures"
            let skippedTests := count testSuite "skipped"
            let passedTests := do
              let total ← totalTests
              let failed ← failedTests
              let skipped ← skippedTests
              pure (total - failed - skipped)
            .ok ⟨totalTests, passedTests, failedTests, skippedTests⟩

end JUnitParserService

namespace RegulationEnforcementService

open JUnitParserService

/-- What the service is given from outside. -/
structure EnforcementEnv where
  xmlParser : XMLParser
  /-- `BUCKET_NAME` -/
  bucketName : String
  /-- the content of an object of the storage, under its bucket and key -/
  getObject : String → String → Except Exception String

/-- `Number(column)`; null is 0. -/
def columnNumber? : Option String → Option Double
  | none => some (.finite 0)
  | some text => number? text

/-- The artifact with the id, and then its file; without a file the first row of all is found. -/
def getJUnitXmlContent (env : EnforcementEnv) (db : UploadDb) (artifactId : Double) :
    Except Exception String :=
  match db.artifacts.find? fun a => artifactId == .finite a.id with
  | none => .error (.plain "Could not find any entity of type \"ReleaseArtifactEntity\"")
  | some artifact =>
      match db.fileUploads.find? fun f => artifact.fileUploadId.all fun id => f.id == id with
      | none => .error (.plain "Cannot read properties of null (reading 'objectKey')")
      | some file => env.getObject env.bucketName file.objectKey

/-- `(passed / total) * 100`; `none` is NaN. -/
def passPercentage (passed total : ℤ) : Option Double :=
  (Double.div (.ofInt passed) (.ofInt total)).bind fun share => share.mul (.finite 100)

/-- `a <= b`, where NaN is in no relation. -/
def atMost (a b : Option Double) : Bool :=
  match a, b with
  | some a, some b => a.le b
  | _, _ => false

def enforce (env : EnforcementEnv) (db : UploadDb) (regulation : Regulation) (value : String) :
    Except Exception Bool :=
  if regulation.type.name = "Boolean" then .ok (value == "true")
  else if regulation.type.name = "Threshold" then
    match number? value with
    | none => .ok false
    | some n => .ok (atMost (columnNumber? regulation.config) (some n))
  else if regulation.type.name = "JUnit" then
    match number? value with
    | none => .ok false
    | some artifactId =>
        match getJUnitXmlContent env db artifactId with
        | .error e => .error e
        | .ok xmlContent =>
            match extractSummary env.xmlParser xmlContent with
            | .error e => .error e
            | .ok summary =>
                let percentage := do passPercentage (← summary.passed) (← summary.total)
                .ok (atMost (columnNumber? regulation.config) percentage)
  else .error (.plain s!"Unsupported regulation type: {regulation.type.name}")

/-! ### The report -/

def testCases (root : XmlElement) : List XmlElement :=
  root.elements.filter fun e => e.name == "testcase"

/-- The test cases with an outcome below them. -/
def casesWith (root : XmlElement) (outcome : String) : ℕ :=
  (testCases root).countP fun testCase => testCase.hasChild outcome

/-- The test cases that neither failed, nor errored, nor were skipped. -/
def passedCases (root : XmlElement) : ℕ :=
  (testCases root).countP fun testCase =>
    !testCase.hasChild "failure" && !testCase.hasChild "error" && !testCase.hasChild "skipped"

/-- The attributes of the root that are there count its test cases. -/
structure AttributesCount (root : XmlElement) : Prop where
  tests : ∀ text, ObjectMap.get? root.attributes "tests" = some text →
    IsNumeral text (testCases root).length
  failures : ∀ text, ObjectMap.get? root.attributes "failures" = some text →
    IsNumeral text (casesWith root "failure")
  errors : ∀ text, ObjectMap.get? root.attributes "errors" = some text →
    IsNumeral text (casesWith root "error")
  skipped : ∀ text, ObjectMap.get? root.attributes "skipped" = some text →
    IsNumeral text (casesWith root "skipped")

/-- The test cases that an attribute lists; one that is missing lists none. -/
def listedBy (root : XmlElement) (name outcome : String) : ℕ :=
  if ObjectMap.has root.attributes name then casesWith root outcome else 0

/-- What the attributes leave of the test cases. -/
def leftCases (root : XmlElement) : ℤ :=
  (testCases root).length - listedBy root "failures" "failure" - listedBy root "skipped" "skipped"

/-- The value of a JUnit regulation names an artifact whose file is the report, and the config is
a number. -/
structure JUnitReport (env : EnforcementEnv) (db : UploadDb) (regulation : Regulation)
    (value : String) (c : ℚ) (root : XmlElement) : Prop where
  type : regulation.type.name = "JUnit"
  config : regulation.config.bind number? = some (.finite c)
  content : ∃ artifactId xmlContent, number? value = some artifactId ∧
    getJUnitXmlContent env db artifactId = .ok xmlContent ∧ xmlContent ≠ "" ∧
    env.xmlParser.parse xmlContent = .ok root

variable {env : EnforcementEnv} {db : UploadDb} {regulation : Regulation} {value : String} {c : ℚ}
  {root : XmlElement}

theorem not_isNumeral_empty (n : ℤ) : ¬ IsNumeral "" n := by
  rintro ⟨digits, hne, -, ⟨htrim, -⟩ | ⟨htrim, -⟩ | ⟨htrim, -⟩⟩
  · exact hne htrim.symm
  · cases htrim
  · cases htrim

/-- An attribute is read as the number of test cases it counts, a missing one as 0. -/
theorem count_eq {name : String} {n : ℕ}
    (h : ∀ text, ObjectMap.get? root.attributes name = some text → IsNumeral text n) :
    count root name = some (if ObjectMap.has root.attributes name then (n : ℤ) else 0) := by
  unfold count ObjectMap.has
  cases hget : ObjectMap.get? root.attributes name with
  | none =>
      show parseInt? "0" = some 0
      decide
  | some text =>
      have hnumeral := h text hget
      have hne : text ≠ "" := by
        rintro rfl
        exact not_isNumeral_empty n hnumeral
      dsimp only
      rw [if_neg hne, parseInt?_of_isNumeral hnumeral]
      rfl

/-- The root is an object of the parsed data where it has an attribute. -/
theorem testsuites?_of_has {name : String} (hhas : ObjectMap.has root.attributes name = true) :
    root.testsuites? = if root.name = "testsuites" then some root else none := by
  unfold XmlElement.testsuites?
  have hattributes : root.attributes ≠ [] := by
    intro hnil
    rw [hnil] at hhas
    cases hhas
  by_cases hname : root.name = "testsuites"
  · rw [if_pos hname, if_pos ⟨hname, fun hboth => hattributes hboth.1⟩]
  · rw [if_neg hname, if_neg fun hboth => hname hboth.1]

theorem testsuites?_eq_some {testSuite : XmlElement} (h : root.testsuites? = some testSuite) :
    root.name = "testsuites" ∧ testSuite = root := by
  unfold XmlElement.testsuites? at h
  split at h
  · rename_i hboth
    exact ⟨hboth.1, (Option.some.inj h).symm⟩
  · cases h

/-- **Spec.** The verdict on a report. -/
theorem enforce_report (h : JUnitReport env db regulation value c root)
    (hcount : AttributesCount root) :
    enforce env db regulation value = .ok true ↔
      root.testsuites?.isSome = true ∧
        atMost (some (.finite c)) (passPercentage
          ((if ObjectMap.has root.attributes "tests" then ((testCases root).length : ℤ) else 0) -
            listedBy root "failures" "failure" - listedBy root "skipped" "skipped")
          (if ObjectMap.has root.attributes "tests" then ((testCases root).length : ℤ) else 0)) =
          true := by
  obtain ⟨artifactId, xmlContent, hvalue, hcontent, hne, hparse⟩ := h.content
  obtain ⟨text, htext, hc⟩ := Option.bind_eq_some_iff.mp h.config
  have hlisted : ∀ name outcome, ((listedBy root name outcome : ℕ) : ℤ) =
      if ObjectMap.has root.attributes name then (casesWith root outcome : ℤ) else 0 := by
    intro name outcome
    unfold listedBy
    split
    · rfl
    · rfl
  unfold enforce
  rw [h.type, if_neg (by decide), if_neg (by decide), if_pos rfl, hvalue]
  dsimp only
  rw [hcontent]
  dsimp only
  unfold extractSummary
  rw [if_neg hne, hparse]
  dsimp only
  cases hsuite : root.testsuites? with
  | none => simp
  | some testSuite =>
      obtain ⟨-, rfl⟩ := testsuites?_eq_some hsuite
      dsimp only
      rw [count_eq hcount.tests, count_eq hcount.failures, count_eq hcount.skipped, hlisted,
        hlisted, htext]
      show (Except.ok (atMost (number? text) _) : Except Exception Bool) = _ ↔ _
      rw [hc, Except.ok.injEq]
      simp

/-- A share of no test cases is not reached. -/
theorem not_atMost_of_zero {passed : ℤ} (hpassed : passed ≤ 0) :
    atMost (some (.finite c)) (passPercentage passed 0) = false := by
  have hinexact := Double.ofRat_of_nonpos (Int.cast_nonpos.mpr hpassed : (passed : ℚ) ≤ 0)
  unfold passPercentage
  show atMost _ ((Double.div (.ofInt passed) (.finite 0)).bind _) = false
  rcases Double.div_zero_of_nonpos hinexact with hnone | hinf
  · unfold Double.ofInt
    rw [hnone]
    rfl
  · unfold Double.ofInt
    rw [hinf]
    rfl

/-- **Main result.** A verdict of true means that at least the percentage of test cases asked for
passed, exactly where this holds of every report that has the attribute for its test cases and on
which what the attributes leave, as a rounded percentage, is what is asked for. -/
theorem enforce_junit_iff (h : JUnitReport env db regulation value c root)
    (hcount : AttributesCount root) :
    (enforce env db regulation value = .ok true →
        0 < (testCases root).length ∧ c * (testCases root).length ≤ 100 * passedCases root) ↔
      (root.name = "testsuites" → ObjectMap.has root.attributes "tests" = true →
        0 < (testCases root).length →
        atMost (some (.finite c)) (passPercentage (leftCases root) (testCases root).length) = true →
        c * (testCases root).length ≤ 100 * passedCases root) := by
  rw [enforce_report h hcount]
  constructor
  · intro hmeans hname htests hpos hreached
    have hsuite := testsuites?_of_has htests
    rw [if_pos hname] at hsuite
    refine (hmeans ⟨by rw [hsuite]; rfl, ?_⟩).2
    rw [if_pos htests]
    exact hreached
  · rintro hcondition ⟨hsuite, hreached⟩
    obtain ⟨testSuite, hsome⟩ := Option.isSome_iff_exists.mp hsuite
    obtain ⟨hname, -⟩ := testsuites?_eq_some hsome
    by_cases htests : ObjectMap.has root.attributes "tests" = true
    · rw [if_pos htests] at hreached
      by_cases hpos : 0 < (testCases root).length
      · exact ⟨hpos, hcondition hname htests hpos hreached⟩
      · rw [Nat.eq_zero_of_not_pos hpos, Nat.cast_zero, not_atMost_of_zero (by omega)] at hreached
        cases hreached
    · rw [if_neg htests, not_atMost_of_zero (by omega)] at hreached
      cases hreached

/-! ### A report with an error -/

/-- Of two test cases one passed and one had an error. -/
def erroredReport : XmlElement :=
  .mk "testsuites" [("tests", "2"), ("failures", "0"), ("errors", "1")]
    [.mk "testsuite" [] [.mk "testcase" [] [], .mk "testcase" [] [.mk "error" [] []]]]

def allMustPass : Regulation where
  id := 1
  name := "tests"
  displayName := none
  description := none
  type := ⟨1, "JUnit"⟩
  projectId := 1
  config := some "100"
  order := 0

/-- The report is the file of the artifact 7. -/
def oneReport : UploadDb :=
  { oneProject with
    artifacts := [⟨7, some "report.xml", .file, none, false, [], "r", some 3, false, none, false,
      none⟩]
    fileUploads := [⟨3, "report.xml", "u", "r/report.xml", .uploaded, "artifacts", none, none, 100,
      none⟩] }

def reportEnv (root : XmlElement) : EnforcementEnv where
  xmlParser := ⟨fun _ => .ok root⟩
  bucketName := "artifacts"
  getObject := fun _ _ => .ok "<testsuites/>"

theorem report_read (root : XmlElement) :
    JUnitReport (reportEnv root) oneReport allMustPass "7" 100 root where
  type := rfl
  config := by decide +kernel
  content := ⟨.finite 7, "<testsuites/>", by decide +kernel, rfl, by decide, rfl⟩

theorem erroredReport_counts : AttributesCount erroredReport where
  tests := by
    rintro text ⟨⟩
    exact ⟨['2'], by decide, by simp, .inl ⟨by decide +kernel, by decide⟩⟩
  failures := by
    rintro text ⟨⟩
    exact ⟨['0'], by decide, by simp, .inl ⟨by decide +kernel, by decide⟩⟩
  errors := by
    rintro text ⟨⟩
    exact ⟨['1'], by decide, by simp, .inl ⟨by decide +kernel, by decide⟩⟩
  skipped := fun text htext => nomatch htext

/-- All tests must pass, and the report with the error is let through. -/
theorem erroredReport_passes :
    JUnitReport (reportEnv erroredReport) oneReport allMustPass "7" 100 erroredReport ∧
      AttributesCount erroredReport ∧
      ¬ (enforce (reportEnv erroredReport) oneReport allMustPass "7" = .ok true →
        0 < (testCases erroredReport).length ∧
          100 * ((testCases erroredReport).length : ℚ) ≤ 100 * passedCases erroredReport) := by
  refine ⟨report_read erroredReport, erroredReport_counts, fun hmeans => ?_⟩
  have hpasses : enforce (reportEnv erroredReport) oneReport allMustPass "7" = .ok true := by
    decide +kernel
  exact absurd (hmeans hpasses).2 (by decide +kernel)

/-- One test case, which passed. -/
def passedReport : XmlElement :=
  .mk "testsuites" [("tests", "1")] [.mk "testcase" [] []]

theorem passedReport_counts : AttributesCount passedReport where
  tests := by
    rintro text ⟨⟩
    exact ⟨['1'], by decide, by simp, .inl ⟨by decide +kernel, by decide⟩⟩
  failures := fun text htext => nomatch htext
  errors := fun text htext => nomatch htext
  skipped := fun text htext => nomatch htext

/-- The verdict on the report is true, and all of its test cases passed. -/
theorem passedReport_means :
    0 < (testCases passedReport).length ∧
      (100 : ℚ) * (testCases passedReport).length ≤ 100 * passedCases passedReport :=
  (enforce_junit_iff (report_read passedReport) passedReport_counts).mpr
    (fun _ _ _ _ => by decide +kernel) (by decide +kernel)

end RegulationEnforcementService

end UploadService
