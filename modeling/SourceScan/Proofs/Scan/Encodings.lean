import SourceScan.Proofs.Scan.ByRule
import SourceScan.Proofs.Text.Encoded

/-!
# One text, many files

A text can be written to a file in many ways: with line feeds, with carriage returns or with both, and with bytes in
it that no encoding of a character begins with. What a scan finds in such a file is what it finds in the text, and
then what there is to find in the number of its bytes (`pathIssues_of_encodings`): the latter alone tells the files
apart.
-/

namespace SourceScan.Scan

variable {text : List Char}

/-- **The encoding of a text makes no difference.** For a text without carriage returns, whatever the analyzer, the
configuration and the path, the check of a file that holds the text ends with the findings in the text and those in
the number of bytes. It may hold it with any of the three line ends and with bytes 0xFF between its characters, also
between a carriage return and a line feed. No finding in the text is on a large file, and those in the number of
bytes are on nothing else. -/
theorem pathIssues_of_encodings (h : '\r' ∉ text) (a : Analyzer) (config : Config) (path : CodeString) :
    (∀ i ∈ textFindings a config path text, i.rule ≠ CodeString.ofString "large_file") ∧
      (∀ size, ∀ i ∈ sizeFindings a config path size, i.rule = CodeString.ofString "large_file") ∧
      ∀ ending ∈ Text.lineEnds, ∀ b : FileBytes, Text.Spaced (Text.withEnds ending text) b.bytes.toList →
        pathIssues a config path (some b) =
          .ok (textFindings a config path text ++ sizeFindings a config path b.bytes.size) := by
  refine ⟨fun i => rule_of_mem_textFindings, fun size i hi => (rule_of_mem_sizeFindings hi).eq, ?_⟩
  intro ending hending b hbytes
  rw [pathIssues_eq_ok, findings_eq, Text.ofBytes_of_spaced h hending hbytes]

/-- A loop without end, and a letter of two bytes on the next line. -/
def loopText : List Char := "while(true)\né".toList

/-- The text with a byte that is none of it between the carriage return and the line feed. -/
def brokenLoop : FileBytes :=
  ⟨("while(true)\r".toList.flatMap String.utf8EncodeChar ++
    0xFF :: "\né".toList.flatMap String.utf8EncodeChar).toByteArray, by decide +kernel⟩

/-- The loop is found on its line, and the two bytes more than those of the text make the file a large one. -/
theorem pathIssues_of_encodings_brokenLoop :
    '\r' ∉ loopText ∧ ['\r', '\n'] ∈ Text.lineEnds ∧
      Text.Spaced (Text.withEnds ['\r', '\n'] loopText) brokenLoop.bytes.toList ∧
      (pathIssues .performance { largeFileBytes := 14 } "x.js" (some brokenLoop)).map
        (·.map fun i => (i.rule, i.line)) = .ok [("infinite_loop", some 1), ("large_file", none)] := by
  have hreturn : '\r' ∉ loopText := by decide
  have hending : ['\r', '\n'] ∈ Text.lineEnds := by decide
  have hbytes : Text.Spaced (Text.withEnds ['\r', '\n'] loopText) brokenLoop.bytes.toList := by
    have hends : Text.withEnds ['\r', '\n'] loopText = "while(true)\r".toList ++ "\né".toList := by decide +kernel
    rw [hends, show brokenLoop.bytes.toList = _ from Text.toList_toByteArray _]
    exact (Text.spaced_encode _).append (.stray (Text.spaced_encode _))
  refine ⟨hreturn, hending, hbytes, ?_⟩
  rw [(pathIssues_of_encodings hreturn .performance { largeFileBytes := 14 } "x.js").2.2 _ hending brokenLoop hbytes]
  decide +kernel

end SourceScan.Scan
