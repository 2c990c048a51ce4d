import DecimalPi.DigitStream.Query
import DecimalPi.ExactStream
import DecimalPi.Main
import DecimalPi.Session.Basic
import DecimalPi.Proofs.Series.Limit
import DecimalPi.Proofs.Exact.Pass
import DecimalPi.Proofs.Exact.Run
import DecimalPi.Proofs.Extent
import DecimalPi.Proofs.Words.Pass
import DecimalPi.Proofs.Words.Run
import DecimalPi.Proofs.Words.Frame
import DecimalPi.Proofs.Overflow
import DecimalPi.Proofs.Conservation
import DecimalPi.Proofs.Accuracy
import DecimalPi.Proofs.Places
import DecimalPi.Proofs.Audit
import DecimalPi.Proofs.Agreement
import DecimalPi.Proofs.Query
import DecimalPi.Proofs.Schedule
import DecimalPi.Proofs.Program
import DecimalPi.Proofs.Alignment
import DecimalPi.Proofs.Range
import DecimalPi.Proofs.Session.Dialogue
import DecimalPi.Proofs.Session.Independence
import DecimalPi.Proofs.Session.Cancellation
import DecimalPi.Proofs.Session.Descent
import DecimalPi.Proofs.DeadEntries
import DecimalPi.Proofs.StateInvariant
import DecimalPi.Proofs.Admission
import DecimalPi.Proofs.Numerals
import DecimalPi.Proofs.Rendering
import DecimalPi.Proofs.Words.Division
import DecimalPi.Proofs.Literals
import DecimalPi.Proofs.CommandLine.Grammar
import DecimalPi.Proofs.CommandLine.Form
import DecimalPi.Proofs.CommandLine.Options
import DecimalPi.Proofs.CommandLine.Reading
import DecimalPi.Proofs.CommandLine.Acceptance
