import LineScript.Main
import LineScript.Host.Memory
import LineScript.Host.Tree
import LineScript.Proofs.Anchoring
import LineScript.Proofs.Atomicity
import LineScript.Proofs.Bits
import LineScript.Proofs.ByteCodes
import LineScript.Proofs.Cipher
import LineScript.Proofs.CommandLine
import LineScript.Proofs.CommentPositions
import LineScript.Proofs.Countdown
import LineScript.Proofs.Dispatch
import LineScript.Proofs.Effects
import LineScript.Proofs.Elements
import LineScript.Proofs.ForwardRuns
import LineScript.Proofs.JumpPatterns
import LineScript.Proofs.LabelLines
import LineScript.Proofs.LineEnds
import LineScript.Proofs.LinePatterns
import LineScript.Proofs.Literals
import LineScript.Proofs.Markers
import LineScript.Proofs.PrintedLists
import LineScript.Proofs.Renumbering
import LineScript.Proofs.Reports
import LineScript.Proofs.Vocabulary
import LineScript.Proofs.WrittenSettings
