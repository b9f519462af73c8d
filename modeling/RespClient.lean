import RespClient.Command.Call
import RespClient.Command.Frame
import RespClient.Session.Action
import RespClient.Main
import RespClient.Proofs.Connection.Runs
import RespClient.Proofs.Reply.Correlation
import RespClient.Proofs.Command.Frames
import RespClient.Proofs.Session.Order
import RespClient.Proofs.Session.Pipeline
import RespClient.Proofs.Session.Demultiplex
import RespClient.Proofs.Connection.Life
import RespClient.Proofs.Session.SameReply
import RespClient.Proofs.Supervisor.Episodes
import RespClient.Proofs.Session.GivingUp
import RespClient.Proofs.Session.Beside
import RespClient.Proofs.Session.Handle
import RespClient.Proofs.Session.LifeCycle
import RespClient.Proofs.Reader.Strict
import RespClient.Proofs.Connection.Faults
import RespClient.Proofs.Prompt
import RespClient.Proofs.Command.Conservation
import RespClient.Proofs.Connection.Schedules
import RespClient.Proofs.Reader.Typing
import RespClient.Proofs.Session.Rewrapped
import RespClient.Proofs.Supervisor.Delays
import RespClient.Proofs.Session.HandOver
import RespClient.Proofs.Settings.Layers
