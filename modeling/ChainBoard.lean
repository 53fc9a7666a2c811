import ChainBoard.Main
import ChainBoard.Explorer.Session
import ChainBoard.Proofs.Explorer.Coherence
import ChainBoard.Proofs.Explorer.Interleaving
import ChainBoard.Proofs.Explorer.Wire
import ChainBoard.Proofs.Board.Lines
import ChainBoard.Proofs.Board.Names
import ChainBoard.Proofs.Explorer.Records
import ChainBoard.Proofs.Explorer.Requests
import ChainBoard.Proofs.Explorer.Shown
import ChainBoard.Proofs.Program.Run
import ChainBoard.Proofs.Figure.Difficulty
import ChainBoard.Proofs.Report.Amount
import ChainBoard.Proofs.Explorer.Dash
import ChainBoard.Proofs.Time.Instant
import ChainBoard.Proofs.Settings.Validity
import ChainBoard.Proofs.Explorer.Endings
import ChainBoard.Proofs.Report.OtherMembers
import ChainBoard.Proofs.Figure.Approximation
import ChainBoard.Proofs.Report.FieldFaults
import ChainBoard.Proofs.Board.History
import ChainBoard.Proofs.Explorer.Address
import ChainBoard.Proofs.Explorer.WholeBodies
import ChainBoard.Proofs.Report.AmountFaults
import ChainBoard.Proofs.Figure.Link
import ChainBoard.Proofs.Report.Places
import ChainBoard.Proofs.Program.Announcement
import ChainBoard.Proofs.Explorer.BodyText
