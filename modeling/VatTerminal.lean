import VatTerminal.Client.Schedule
import VatTerminal.Proofs.Client.Answers
import VatTerminal.Proofs.Client.Course
import VatTerminal.Proofs.Client.Outbound
import VatTerminal.Proofs.Client.Settling
import VatTerminal.Proofs.Client.Teardown
import VatTerminal.Proofs.Coordinate.Codes
import VatTerminal.Proofs.Frame.RoundTrip
import VatTerminal.Proofs.Keyset.Batch
import VatTerminal.Proofs.Negotiation.Isolation
import VatTerminal.Proofs.Negotiation.LastRequest
import VatTerminal.Proofs.Negotiation.Passive
import VatTerminal.Proofs.Negotiation.Registry
import VatTerminal.Proofs.Negotiation.Rounds
import VatTerminal.Proofs.Screen.InPlace
import VatTerminal.Proofs.Screen.Scroll
import VatTerminal.Proofs.Screen.Shifts
import VatTerminal.Proofs.Session.Arithmetic
import VatTerminal.Proofs.Session.Blanks
import VatTerminal.Proofs.Session.Bounds
import VatTerminal.Proofs.Session.Gestures
import VatTerminal.Proofs.Session.Marker
import VatTerminal.Proofs.Session.Reports
import VatTerminal.Proofs.Session.Resume
import VatTerminal.Proofs.Session.Transcript
import VatTerminal.Proofs.Stream.Arguments
import VatTerminal.Proofs.Stream.Chunks
import VatTerminal.Proofs.Stream.Interruptions
import VatTerminal.Session.Console
import VatTerminal.Telnet.Exchange
